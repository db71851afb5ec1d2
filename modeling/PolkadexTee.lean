import PolkadexTee.Lib.Bytes
import PolkadexTee.Lib.Except
import PolkadexTee.Lib.EState
import PolkadexTee.Lib.Rust
import PolkadexTee.Relay.Objects
import PolkadexTee.Relay.Validation
import PolkadexTee.Relay.Reference
import PolkadexTee.Relay.Theorems.Basic
import PolkadexTee.Relay.Theorems.Authorities
import PolkadexTee.Relay.Theorems.Chain
import PolkadexTee.Stf.Objects
import PolkadexTee.Stf.Execute
import PolkadexTee.Stf.Reference
import PolkadexTee.Stf.Theorems.Replay
import PolkadexTee.Stf.Theorems.Storage
import PolkadexTee.Enclave.Objects
import PolkadexTee.Enclave.Io
import PolkadexTee.Enclave.Calls
import PolkadexTee.Enclave.Reference
import PolkadexTee.Enclave.Theorems.Shield
import PolkadexTee.Enclave.Sidechain
import PolkadexTee.Enclave.ProduceBlocks
import PolkadexTee.Worker.ProduceBlocks
import PolkadexTee.Worker.Theorems.Sync
import PolkadexTee.Enclave.Theorems.Responses
import PolkadexTee.Enclave.Theorems.Chain
import PolkadexTee.Enclave.Ecalls
import PolkadexTee.Enclave.Theorems.Finality
import PolkadexTee.Enclave.Cert
import PolkadexTee.Enclave.Theorems.Cert
import PolkadexTee.Pool.Objects
import PolkadexTee.Pool.Ready
import PolkadexTee.Pool.Base
import PolkadexTee.Pool.Theorems.Order
import PolkadexTee.Pool.Theorems.Panics
import PolkadexTee.Lib.Map
import PolkadexTee.Pool.Theorems.Removal
import PolkadexTee.Pool.Theorems.Import
import PolkadexTee.Pool.Theorems.Prune
import PolkadexTee.Pool.Sharded
import PolkadexTee.Pool.Theorems.Isolation
import PolkadexTee.Pool.Theorems.Errors
import PolkadexTee.Pool.Validated
import PolkadexTee.Pool.Theorems.Known
import PolkadexTee.Pool.Theorems.Promotion
import PolkadexTee.Pool.Theorems.Submit
import PolkadexTee.Relay.Theorems.Inclusion
import PolkadexTee.Enclave.Theorems.Sidechain
import PolkadexTee.Pool.Theorems.Shape
import PolkadexTee.Pool.Theorems.Reachable
import PolkadexTee.Pool.Theorems.Limits
import PolkadexTee.Pool.Rotator
import PolkadexTee.Pool.Theorems.Waiting
import PolkadexTee.Relay.Theorems.Ancestry
import PolkadexTee.Pool.Theorems.Ban
import PolkadexTee.Enclave.TlsRa
import PolkadexTee.Enclave.Theorems.Provisioning
import PolkadexTee.Pool.Theorems.Simulation
import PolkadexTee.Lib.Walk
import PolkadexTee.Relay.Justification
import PolkadexTee.Relay.Theorems.Justification
import PolkadexTee.Pool.Resubmit
import PolkadexTee.Enclave.Hex
import PolkadexTee.Pool.Theorems.Resubmit
import PolkadexTee.Enclave.Theorems.Hex
