import Mathlib.Data.List.Forall2
import Mathlib.Data.Rat.Defs

set_option autoImplicit false

namespace DeepFeeder

/-- The Python values a payload can hold. A float is an exact rational, an infinity or NaN. -/
inductive Value where
  | none
  | bool (b : Bool)
  | int (n : Int)
  | float (q : Rat)
  | inf (negative : Bool)
  | nan
  | str (s : String)
  | list (items : List Value)
  | dict (items : List (String × Value))

def Value.truthy : Value → Bool
  | .none => false
  | .bool b => b
  | .int n => n ≠ 0
  | .float q => q ≠ 0
  | .inf _ | .nan => true
  | .str s => s ≠ ""
  | .list items => !items.isEmpty
  | .dict items => !items.isEmpty

inductive Kind where
  | none
  | bool
  | int
  | float
  | str
  | list
  | dict
  deriving DecidableEq

def Value.kind : Value → Kind
  | .none => .none
  | .bool _ => .bool
  | .int _ => .int
  | .float _ | .inf _ | .nan => .float
  | .str _ => .str
  | .list _ => .list
  | .dict _ => .dict

abbrev Payload := List (String × Value)

-- The cells of a payload have the names and, None aside, the kinds of the columns.
def Typed (columns : List (String × Kind)) (payload : Payload) : Prop :=
  List.Forall₂ (fun cell column => cell.1 = column.1 ∧
    (cell.2.kind = .none ∨ cell.2.kind = column.2)) payload columns

structure Tick where
  provider : String
  stream : String
  symbol : String
  tsNs : Int
  seq : Option Int
  payload : Payload
  isFinal : Bool := true

structure Envelope where
  batchId : Int
  producedAtNs : Int
  firstOffset : Option Int
  lastOffset : Option Int
  rows : List Tick

def isBigint (n : Int) : Bool := -9223372036854775808 ≤ n && n ≤ 9223372036854775807

def naturalKey (t : Tick) : String × String × String × Int :=
  (t.provider, t.stream, t.symbol, t.seq.getD t.tsNs)

abbrev ids (envs : List Envelope) : List Int := envs.map Envelope.batchId

theorem map_lookup {cells : Payload} (distinct : (cells.map Prod.fst).Nodup) :
    (cells.map fun cell => (cell.1, (cells.lookup cell.1).getD .none)) = cells := by
  induction cells with
  | nil => rfl
  | cons cell rest ih =>
      rw [List.map_cons, List.nodup_cons] at distinct
      rw [List.map_cons, List.lookup_cons_self]
      congr 1
      conv_rhs => rw [← ih distinct.2]
      apply List.map_congr_left
      intro other member
      have different : (other.1 == cell.1) = false := by
        apply beq_eq_false_iff_ne.mpr
        intro same
        exact distinct.1 (same ▸ List.mem_map_of_mem member)
      rw [List.lookup_cons, different]

section Typed

variable {columns : List (String × Kind)} {payload : Payload} {kind : Kind}

theorem Typed.keys (typed : Typed columns payload) :
    payload.map Prod.fst = columns.map Prod.fst := by
  induction typed with
  | nil => rfl
  | cons cell _ ih => rw [List.map_cons, List.map_cons, cell.1, ih]

theorem Typed.lookup (typed : Typed columns payload) (distinct : (columns.map Prod.fst).Nodup)
    {field : String} (column : (field, kind) ∈ columns) :
    ∃ x, payload.lookup field = some x ∧ (x.kind = .none ∨ x.kind = kind) := by
  induction typed with
  | nil => cases column
  | @cons cell first rest _ here _ ih =>
      rw [List.map_cons, List.nodup_cons] at distinct
      rcases List.mem_cons.mp column with rfl | later
      · have name : cell.1 = field := here.1
        exact ⟨cell.2, by rw [← name, List.lookup_cons_self], here.2⟩
      · have other : field ≠ cell.1 := by
          rintro rfl
          exact distinct.1 (here.1 ▸ List.mem_map_of_mem later)
        obtain ⟨x, found, isKind⟩ := ih distinct.2 later
        exact ⟨x, by rw [List.lookup_cons, beq_false_of_ne other]; exact found, isKind⟩

end Typed

end DeepFeeder
