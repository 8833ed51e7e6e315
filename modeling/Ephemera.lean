import Ephemera.Session.Descriptor
import Ephemera.Session.Memo
import Ephemera.Session.Pool
import Ephemera.Session.Table
import Ephemera.Word
import Ephemera.Proofs.Hash
import Ephemera.Proofs.Capacity
import Ephemera.Proofs.Rounding
import Ephemera.Proofs.Chain
import Ephemera.Proofs.Keyring
import Ephemera.Proofs.Table.Placement
import Ephemera.Proofs.Table.Sound
import Ephemera.Proofs.Table.Effect
import Ephemera.Proofs.Table.Bag
import Ephemera.Proofs.Table.Represented
import Ephemera.Proofs.Table.Ways
import Ephemera.Proofs.Table.Load
import Ephemera.Proofs.Table.Agreement
import Ephemera.Proofs.Table.Growth
import Ephemera.Proofs.Table.Refusal
import Ephemera.Proofs.Table.Frame
import Ephemera.Proofs.Table.Lives
import Ephemera.Proofs.Pool.Sound
import Ephemera.Proofs.Pool.Canonical
import Ephemera.Proofs.Descriptor.Sound
import Ephemera.Proofs.Descriptor.Identity
import Ephemera.Proofs.Descriptor.Edit
import Ephemera.Proofs.Descriptor.Route
import Ephemera.Proofs.Descriptor.Handles
import Ephemera.Proofs.Descriptor.Hash
import Ephemera.Proofs.Descriptor.Rendering
import Ephemera.Proofs.Memo.Sound
import Ephemera.Proofs.Memo.Effect
import Ephemera.Proofs.Memo.Later
import Ephemera.Proofs.Memo.Contents
import Ephemera.Proofs.Memo.Asking
import Ephemera.Proofs.Machine.Later
import Ephemera.Proofs.Machine.Session
import Ephemera.Proofs.Machine.Sound
import Ephemera.Proofs.Machine.Lifecycle
import Ephemera.Proofs.Machine.Asking
import Ephemera.Proofs.Ledger.Basic
import Ephemera.Proofs.Ledger.Meet
import Ephemera.Proofs.Ledger.Session
import Ephemera.Proofs.Ledger.Simulation
import Ephemera.Proofs.Ledger.Plan
import Ephemera.Proofs.Ledger.Refinement
import Ephemera.Proofs.Chronicle.Deed
import Ephemera.Proofs.Chronicle.Machine
import Ephemera.Proofs.Chronicle.Stable
import Ephemera.Proofs.Chronicle.Failure
import Ephemera.Proofs.Chronicle.Passage
import Ephemera.Proofs.Chronicle.Annals
import Ephemera.Proofs.Chronicle.Return
import Ephemera.Proofs.Chronicle.Claims
import Ephemera.Proofs.Chronicle.Rounds
import Ephemera.Proofs.Chronicle.Keeping
