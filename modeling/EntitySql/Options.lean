import EntitySql.Fault
import EntitySql.Json.Basic

/-!
# Session options

The sizes, the time limit and the batch mode of a session, and how they are read
from a JSON document.
-/

namespace EntitySql

/-- The options of a session. -/
structure Options where
  /-- How many instances one statement of a batch covers. -/
  batchSize : Nat
  /-- The size of a page when none is asked for. -/
  defaultPageSize : Nat
  /-- The time limit of a statement in milliseconds. -/
  timeout : Option Nat
  /-- Whether a batch of several statements runs in a transaction of its own. -/
  atomicBatches : Bool
  deriving DecidableEq, Repr

namespace Options

open Json (Document)

/-- The options of a session that sets none. -/
def default : Options := ⟨100, 20, none, false⟩

/-- Sizes of zero stand for the usual ones. -/
def normalized (o : Options) : Options :=
  { o with
    batchSize := if o.batchSize = 0 then default.batchSize else o.batchSize
    defaultPageSize :=
      if o.defaultPageSize = 0 then default.defaultPageSize else o.defaultPageSize }

/-- Sets the size of a batch. -/
def withBatchSize (o : Options) (size : Nat) : Options :=
  { o with batchSize := size }.normalized

/-- Sets the size of a page when none is asked for. -/
def withDefaultPageSize (o : Options) (size : Nat) : Options :=
  { o with defaultPageSize := size }.normalized

/-- Sets the time limit to seconds and nanoseconds; the milliseconds are kept in 64 bits. -/
def withTimeout (o : Options) (seconds nanoseconds : Nat) : Options :=
  { o with timeout := some ((seconds * 1000 + nanoseconds / 1000000) % UInt64.size) }

/-- Sets the batch mode. -/
def withAtomicBatches (o : Options) (atomic : Bool) : Options :=
  { o with atomicBatches := atomic }

/-- The fields of a document of options. -/
inductive Key where
  | batchSize
  | defaultPageSize
  | timeout
  | atomicBatches
  deriving DecidableEq, Repr

/-- The fields in the order of a list of options. -/
def Key.all : List Key := [.batchSize, .defaultPageSize, .timeout, .atomicBatches]

/-- The name of a field in a document. -/
def Key.name : Key → String
  | .batchSize => "batch_size"
  | .defaultPageSize => "default_page_size"
  | .timeout => "command_timeout_ms"
  | .atomicBatches => "atomic_batches"

/-- The number of a document, if it is a whole number of 64 bits without a sign. -/
def word? : Document → Option Nat
  | .number n =>
    match n.number? with
    | some (.whole k) => if 0 ≤ k ∧ k < UInt64.size then some k.toNat else none
    | _ => none
  | _ => none

/-- Sets one field to the value of a document. -/
def set? (o : Options) (k : Key) (d : Document) : Option Options :=
  match k, d with
  | .batchSize, d => (word? d).map fun n => { o with batchSize := n }
  | .defaultPageSize, d => (word? d).map fun n => { o with defaultPageSize := n }
  | .timeout, .null => some { o with timeout := none }
  | .timeout, d => (word? d).map fun n => { o with timeout := some n }
  | .atomicBatches, .bool b => some { o with atomicBatches := b }
  | .atomicBatches, _ => none

/-- Sets fields from a list in their order; what is missing at the end stays, and nothing may be
left over. -/
def setAll? (o : Options) : List Key → List Document → Option Options
  | _, [] => some o
  | [], _ :: _ => none
  | k :: ks, d :: ds => (o.set? k d).bind fun o' => o'.setAll? ks ds

/-- Sets fields from the members of an object, given the fields that were set before. A field may
occur once; a member of another name is passed over. -/
def setMembers? (o : Options) (seen : List Key) : List (Option String × Document) → Option Options
  | [] => some o
  | (none, _) :: _ => none
  | (some name, d) :: rest =>
    match Key.all.find? (·.name == name) with
    | none => o.setMembers? seen rest
    | some k =>
      if k ∈ seen then none else (o.set? k d).bind fun o' => o'.setMembers? (k :: seen) rest

/-- The options of a document: an object or a list of fields. -/
def ofDocument? : Document → Option Options
  | .object members => default.setMembers? [] members
  | .array items => default.setAll? Key.all items
  | _ => none

/-- The options of a JSON text. -/
def parse (s : String) : Except Fault Options :=
  match (Document.parse? s).bind ofDocument? with
  | some o => .ok o.normalized
  | none => .error .configuration

end Options

end EntitySql
