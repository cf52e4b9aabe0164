import Mathlib.Algebra.Group.Nat.Defs
import Mathlib.Data.List.Dedup
import Mathlib.Data.List.Lattice
import DeepFeeder.Core.Contracts
import DeepFeeder.Shared.Fallible

set_option autoImplicit false

namespace DeepFeeder

namespace Value

def items : Value → List Value
  | .list items => items
  | _ => []

def cells : Value → Payload
  | .dict cells => cells
  | _ => []

def number : Value → Option Rat
  | .bool b => some (if b then 1 else 0)
  | .int n => some n
  | .float q => some q
  | _ => Option.none

/-- Python's `==`, except that NaN is the same as NaN. The order of a dictionary's keys is not looked
at. -/
inductive Same : Value → Value → Prop
  | none : Same .none .none
  | str (s : String) : Same (.str s) (.str s)
  | inf (negative : Bool) : Same (.inf negative) (.inf negative)
  | nan : Same .nan .nan
  | number {x y : Value} {q : Rat} : x.number = some q → y.number = some q → Same x y
  | list {xs ys : List Value} : List.Forall₂ Same xs ys → Same (.list xs) (.list ys)
  | dict {xs ys : Payload} : (∀ key, (xs.lookup key).isSome = (ys.lookup key).isSome) →
      (∀ key x y, xs.lookup key = some x → ys.lookup key = some y → Same x y) →
      Same (.dict xs) (.dict ys)

mutual

def depth : Value → Nat
  | .list items => depths items + 1
  | .dict cells => cellDepths cells + 1
  | _ => 0

def depths : List Value → Nat
  | [] => 0
  | value :: rest => max value.depth (depths rest)

def cellDepths : List (String × Value) → Nat
  | [] => 0
  | (_, value) :: rest => max value.depth (cellDepths rest)

end

end Value

/-- The type of a column or of a place inside it. A place where values of different kinds stand
keeps them. -/
inductive ArrowType where
  | null
  | bool
  | int64
  | double
  | string
  | list (item : ArrowType)
  | struct (fields : List String) (typeOf : String → ArrowType)
  | mixed (values : List Value)

/-- What pyarrow makes of a value in a place where values of different kinds stand; none where it
raises. -/
abbrev Coercion := List Value → Value → Option Value

def Coercion.refuse : Coercion := fun _ _ => none

namespace ArrowType

def fieldsOf (values : List Value) : List String :=
  (values.flatMap fun v => v.cells.map Prod.fst).reverse.dedup.reverse

def present (values : List Value) : List Value := values.filter fun v => v.kind ≠ .none

/-- The type that pyarrow infers from the values in a place, which are not nested deeper than
`fuel`. -/
def infer : Nat → List Value → ArrowType
  | 0, values => .mixed values
  | fuel + 1, values =>
      let only (kind : Kind) := (present values).all fun v => v.kind = kind
      if present values = [] then .null
      else if only .bool then .bool
      else if only .int then .int64
      else if (present values).all fun v => v.kind = .int ∨ v.kind = .float then .double
      else if only .str then .string
      else if only .list then .list (infer fuel ((present values).flatMap Value.items))
      else if only .dict then
        .struct (fieldsOf (present values)) fun field =>
          infer fuel ((present values).map fun v => (v.cells.lookup field).getD .none)
      else .mixed values

/-- A value that is written to a place of the type and read back; none where the write raises. -/
def store (coerce : Coercion) : ArrowType → Value → Option Value
  | _, .none => some .none
  | .bool, .bool b => some (.bool b)
  | .int64, .int n => if isBigint n then some (.int n) else none
  -- A double holds the integers up to 53 bits; pyarrow refuses others.
  | .double, .int n => if n.natAbs ≤ 2 ^ 53 then some (.float n) else none
  | .double, .float q => some (.float q)
  | .double, .inf negative => some (.inf negative)
  | .double, .nan => some .nan
  | .string, .str s => some (.str s)
  | .list item, .list items => (items.mapM (item.store coerce)).map .list
  | .struct fields typeOf, .dict cells =>
      (fields.mapM fun field =>
        ((typeOf field).store coerce ((cells.lookup field).getD .none)).map fun value =>
          (field, value)).map .dict
  | .mixed values, value => coerce values value
  | _, _ => none

def Keeps (coerce : Coercion) (type : ArrowType) (value : Value) : Prop :=
  ∃ out, type.store coerce value = some out ∧ value.Same out

def Only (kind : Kind) (values : List Value) : Prop :=
  ∀ v ∈ values, v.kind = .none ∨ v.kind = kind

/-- The values of a place are of one kind, None aside, and so are those of each place inside them;
dictionaries of one place have the same keys, and numbers fit. -/
inductive Uniform : List Value → Prop
  | bools {values : List Value} : Only .bool values → Uniform values
  | strings {values : List Value} : Only .str values → Uniform values
  | integers {values : List Value} : Only .int values →
      (∀ n, .int n ∈ values → isBigint n = true) → Uniform values
  | numbers {values : List Value} :
      (∀ v ∈ values, v.kind = .none ∨ v.kind = .int ∨ v.kind = .float) →
      (∀ n, .int n ∈ values → n.natAbs ≤ 2 ^ 53) → Uniform values
  | lists {values : List Value} : Only .list values → Uniform (values.flatMap Value.items) →
      Uniform values
  | dicts {values : List Value} : Only .dict values →
      (∀ xs ys, .dict xs ∈ values → .dict ys ∈ values → xs.map Prod.fst ⊆ ys.map Prod.fst) →
      (∀ field, Uniform (values.flatMap fun v => (v.cells.lookup field).toList)) → Uniform values

section Values

variable {v out : Value} {xs : List Value} {cells : Payload} {values : List Value}

theorem kind_none_iff : v.kind = .none ↔ v = .none := by
  cases v <;> simp [Value.kind]

theorem mem_present : v ∈ present values ↔ v ∈ values ∧ v ≠ .none := by
  simp [present, kind_none_iff]

theorem same_list_iff :
    (Value.list xs).Same out ↔ ∃ ys, out = .list ys ∧ List.Forall₂ Value.Same xs ys := by
  constructor
  · intro same
    cases same with
    | number isNumber _ => cases isNumber
    | list pairs => exact ⟨_, rfl, pairs⟩
  · rintro ⟨ys, rfl, pairs⟩
    exact .list pairs

theorem same_dict_iff {ys : Payload} : (Value.dict cells).Same (.dict ys) ↔
    (∀ key, (cells.lookup key).isSome = (ys.lookup key).isSome) ∧
      ∀ key x y, cells.lookup key = some x → ys.lookup key = some y → x.Same y := by
  constructor
  · intro same
    cases same with
    | number isNumber _ => cases isNumber
    | dict keys each => exact ⟨keys, each⟩
  · rintro ⟨keys, each⟩
    exact .dict keys each

theorem lookup_isSome_iff {payload : Payload} {key : String} :
    (payload.lookup key).isSome = true ↔ key ∈ payload.map Prod.fst := by
  simp only [List.lookup_isSome_iff, List.mem_map, beq_iff_eq]
  exact exists_congr fun cell => and_congr_right fun _ => eq_comm

theorem flatMap_present {α : Type} {f : Value → List α} (nothing : f .none = []) :
    (present values).flatMap f = values.flatMap f := by
  induction values with
  | nil => rfl
  | cons v rest ih =>
      unfold present at ih ⊢
      rw [List.flatMap_cons, ← ih, List.filter_cons]
      split
      next => rw [List.flatMap_cons]
      next missing =>
        have none : v = .none := kind_none_iff.mp (by simpa using missing)
        rw [none, nothing, List.nil_append]

end Values

section Places

variable {coerce : Coercion} {v : Value} {xs : List Value} {cells : Payload} {item : ArrowType}
  {fields : List String} {typeOf : String → ArrowType}

theorem store_none (coerce : Coercion) (type : ArrowType) : type.store coerce .none = some .none := by
  cases type <;> rfl

theorem keeps_none (coerce : Coercion) (type : ArrowType) : Keeps coerce type .none :=
  ⟨.none, store_none coerce type, .none⟩

theorem keeps_list_iff : Keeps coerce (.list item) (.list xs) ↔ ∀ x ∈ xs, Keeps coerce item x := by
  unfold Keeps
  rw [← Fallible.mapM_forall₂_iff]
  simp only [store, Option.map_eq_some_iff, same_list_iff]
  constructor
  · rintro ⟨_, ⟨ys, made, rfl⟩, zs, same, pairs⟩
    cases same
    exact ⟨ys, made, pairs⟩
  · rintro ⟨ys, made, pairs⟩
    exact ⟨_, ⟨ys, made, rfl⟩, ys, rfl, pairs⟩

theorem keys_mapM {read : String → Option Value} {made : Payload}
    (all : (fields.mapM fun field => (read field).map fun value => (field, value)) = some made) :
    made.map Prod.fst = fields := by
  have pairs := Fallible.mapM_eq_some_iff.mp all
  clear all
  induction pairs with
  | nil => rfl
  | cons first _ ih =>
      obtain ⟨value, _, rfl⟩ := Option.map_eq_some_iff.mp first
      exact congrArg _ ih

theorem lookup_mapM {read : String → Option Value} {made : Payload}
    (all : (fields.mapM fun field => (read field).map fun value => (field, value)) = some made)
    {key : String} (member : key ∈ fields) : made.lookup key = read key := by
  have pairs := Fallible.mapM_eq_some_iff.mp all
  clear all
  induction pairs with
  | nil => cases member
  | @cons field _ _ _ first _ ih =>
      obtain ⟨value, isRead, rfl⟩ := Option.map_eq_some_iff.mp first
      by_cases same : key = field
      · subst same
        rw [List.lookup_cons_self, isRead]
      · rw [List.lookup_cons, beq_false_of_ne same]
        exact ih ((List.mem_cons.mp member).resolve_left same)

theorem keeps_struct_iff (covered : cells.map Prod.fst ⊆ fields) :
    Keeps coerce (.struct fields typeOf) (.dict cells) ↔ fields ⊆ cells.map Prod.fst ∧
      ∀ key x, cells.lookup key = some x → Keeps coerce (typeOf key) x := by
  have inFields {key : String} {x : Value} (found : cells.lookup key = some x) : key ∈ fields :=
    covered (lookup_isSome_iff.mp (Option.isSome_of_eq_some found))
  unfold Keeps
  simp only [store, Option.map_eq_some_iff]
  constructor
  · rintro ⟨_, ⟨made, all, rfl⟩, same⟩
    obtain ⟨keys, each⟩ := same_dict_iff.mp same
    constructor
    · intro key member
      rw [← lookup_isSome_iff, keys, lookup_isSome_iff, keys_mapM all]
      exact member
    · intro key x found
      have stored := lookup_mapM all (inFields found)
      rw [found, Option.getD_some] at stored
      have readable := keys key
      rw [found, stored] at readable
      obtain ⟨y, read⟩ := Option.isSome_iff_exists.mp readable.symm
      exact ⟨y, read, each key x y found (stored.trans read)⟩
  · rintro ⟨keys, each⟩
    have reads : ∀ field ∈ fields, ∃ cell, (((typeOf field).store coerce
        ((cells.lookup field).getD .none)).map fun value => (field, value)) = some cell ∧ True := by
      intro field member
      obtain ⟨x, found⟩ := Option.isSome_iff_exists.mp (lookup_isSome_iff.mpr (keys member))
      obtain ⟨y, read, _⟩ := each field x found
      exact ⟨(field, y), by rw [found, Option.getD_some, read]; rfl, trivial⟩
    obtain ⟨made, all, _⟩ := Fallible.mapM_forall₂_iff.mpr reads
    refine ⟨_, ⟨made, all, rfl⟩, same_dict_iff.mpr ⟨?_, ?_⟩⟩
    · intro key
      rw [Bool.eq_iff_iff, lookup_isSome_iff, lookup_isSome_iff, keys_mapM all]
      exact ⟨fun inCells => covered inCells, fun member => keys member⟩
    · intro key x y found inMade
      rw [lookup_mapM all (inFields found), found, Option.getD_some] at inMade
      obtain ⟨y', read, same⟩ := each key x found
      cases inMade.symm.trans read
      exact same

end Places

section Inference

variable {coerce : Coercion} {values : List Value} {kind : Kind} {fuel : Nat}

theorem kind_of_only (only : Only kind values) {v : Value} (inside : v ∈ present values) :
    v.kind = kind := by
  obtain ⟨member, nonempty⟩ := mem_present.mp inside
  exact (only v member).resolve_left fun none => nonempty (kind_none_iff.mp none)

theorem all_only (only : Only kind values) (some : present values ≠ []) (test : Kind → Bool) :
    ((present values).all fun v => test v.kind) = test kind := by
  obtain ⟨first, rest, isPresent⟩ := List.exists_cons_of_ne_nil some
  rw [Bool.eq_iff_iff, List.all_eq_true]
  constructor
  · intro all
    have member : first ∈ present values := isPresent ▸ List.mem_cons_self
    exact kind_of_only only member ▸ all first member
  · intro passes v member
    rw [kind_of_only only member]
    exact passes

theorem eq_none_of_present (none : present values = []) {v : Value} (member : v ∈ values) :
    v = .none := by
  by_contra nonempty
  have := mem_present.mpr ⟨member, nonempty⟩
  rw [none] at this
  cases this

theorem only_of_all (all : ((present values).all fun v => v.kind = kind) = true) :
    Only kind values := by
  intro v member
  by_cases none : v.kind = .none
  · exact .inl none
  · have inside := mem_present.mpr ⟨member, fun isNone => none (kind_none_iff.mpr isNone)⟩
    exact .inr (of_decide_eq_true (List.all_eq_true.mp all v inside))

theorem mem_fieldsOf {field : String} :
    field ∈ fieldsOf values ↔ ∃ v ∈ values, field ∈ v.cells.map Prod.fst := by
  unfold fieldsOf
  rw [List.mem_reverse, List.mem_dedup, List.mem_reverse, List.mem_flatMap]

theorem kind_list_iff {v : Value} : v.kind = .list ↔ v = .list v.items := by
  cases v <;> simp [Value.kind, Value.items]

theorem kind_dict_iff {v : Value} : v.kind = .dict ↔ v = .dict v.cells := by
  cases v <;> simp [Value.kind, Value.cells]

theorem column_eq {field : String}
    (each : ∀ v ∈ present values, field ∈ v.cells.map Prod.fst) :
    ((present values).map fun v => (v.cells.lookup field).getD .none) =
      values.flatMap fun v => (v.cells.lookup field).toList := by
  rw [← flatMap_present rfl, List.map_eq_flatMap]
  apply List.flatMap_congr
  intro v inside
  obtain ⟨x, found⟩ := Option.isSome_iff_exists.mp (lookup_isSome_iff.mpr (each v inside))
  rw [found]
  rfl

theorem column_eq_nil {field : String} (outside : field ∉ fieldsOf (present values)) :
    (values.flatMap fun v => (v.cells.lookup field).toList) = [] := by
  rw [← flatMap_present rfl, List.flatMap_eq_nil_iff]
  intro v inside
  cases found : v.cells.lookup field with
  | none => rfl
  | some x =>
      have has := lookup_isSome_iff.mp (Option.isSome_of_eq_some found)
      exact absurd (mem_fieldsOf.mpr ⟨v, inside, has⟩) outside

theorem keeps_cells {typeOf : String → ArrowType} (only : Only .dict values)
    (keeps : ∀ v ∈ values, Keeps coerce (.struct (fieldsOf (present values)) typeOf) v)
    {v : Value} (inside : v ∈ present values) :
    fieldsOf (present values) ⊆ v.cells.map Prod.fst ∧
      ∀ key x, v.cells.lookup key = some x → Keeps coerce (typeOf key) x := by
  have kept := keeps v (mem_present.mp inside).1
  rw [kind_dict_iff.mp (kind_of_only only inside), keeps_struct_iff] at kept
  · exact kept
  · exact fun key has => mem_fieldsOf.mpr ⟨v, inside, has⟩

theorem of_store_ite {fits : Prop} [Decidable fits] {out stored : Value}
    (isStored : (if fits then some out else none) = some stored) : fits := by
  by_contra unfit
  rw [if_neg unfit] at isStored
  cases isStored

theorem uniform_of_keeps (keeps : ∀ v ∈ values, Keeps .refuse (infer fuel values) v) :
    Uniform values := by
  -- one case of `Uniform` for each branch of `infer`; the next depth speaks of the inner values
  induction fuel generalizing values with
  | zero =>
      refine .bools fun v member => .inl (kind_none_iff.mpr ?_)
      obtain ⟨out, stored, _⟩ := keeps v member
      cases v <;> first | rfl | cases stored
  | succ fuel ih =>
      simp only [infer] at keeps
      split_ifs at keeps with none bools ints numbers strings lists dicts
      next =>
        exact .bools fun v member => .inl (kind_none_iff.mpr (eq_none_of_present none member))
      next => exact .bools (only_of_all bools)
      next =>
        refine .integers (only_of_all ints) fun n member => ?_
        obtain ⟨out, stored, _⟩ := keeps _ member
        exact of_store_ite stored
      next =>
        refine .numbers ?_ ?_
        · intro v member
          by_cases none : v = .none
          · exact .inl (kind_none_iff.mpr none)
          · exact .inr (of_decide_eq_true
              (List.all_eq_true.mp numbers v (mem_present.mpr ⟨member, none⟩)))
        · intro n member
          obtain ⟨out, stored, _⟩ := keeps _ member
          exact of_store_ite stored
      next => exact .strings (only_of_all strings)
      next =>
        refine .lists (only_of_all lists) ?_
        rw [← flatMap_present rfl]
        apply ih
        intro x member
        obtain ⟨v, inside, isItem⟩ := List.mem_flatMap.mp member
        have isList := kind_list_iff.mp (of_decide_eq_true (List.all_eq_true.mp lists v inside))
        have kept := keeps v (mem_present.mp inside).1
        rw [isList, keeps_list_iff] at kept
        exact kept x isItem
      next =>
        have struct := @keeps_cells _ _ _ (only_of_all dicts) keeps
        refine .dicts (only_of_all dicts) ?_ ?_
        · intro xs ys first second key has
          apply (struct (mem_present.mpr ⟨second, nofun⟩)).1
          exact mem_fieldsOf.mpr ⟨_, mem_present.mpr ⟨first, nofun⟩, has⟩
        · intro field
          by_cases inFields : field ∈ fieldsOf (present values)
          · rw [← column_eq fun v inside => (struct inside).1 inFields]
            apply ih
            intro x member
            obtain ⟨v, inside, rfl⟩ := List.mem_map.mp member
            obtain ⟨x, found⟩ := Option.isSome_iff_exists.mp
              (lookup_isSome_iff.mpr ((struct inside).1 inFields))
            rw [found]
            exact (struct inside).2 field x found
          · rw [column_eq_nil inFields]
            exact .bools fun _ inside => nomatch inside
      next =>
        refine .bools fun v member => .inl (kind_none_iff.mpr ?_)
        obtain ⟨out, stored, _⟩ := keeps v member
        cases v <;> first | rfl | cases stored

theorem depths_le_iff {n : Nat} : Value.depths values ≤ n ↔ ∀ v ∈ values, v.depth ≤ n := by
  induction values with
  | nil => simp [Value.depths]
  | cons v rest ih => rw [Value.depths, Nat.max_le, ih, List.forall_mem_cons]

theorem depth_lookup_le {cells : Payload} {key : String} {x : Value}
    (found : cells.lookup key = some x) : x.depth ≤ Value.cellDepths cells := by
  induction cells with
  | nil => cases found
  | cons cell rest ih =>
      obtain ⟨name, value⟩ := cell
      rw [Value.cellDepths]
      by_cases same : key = name
      · subst same
        rw [List.lookup_cons_self] at found
        cases found
        exact le_max_left _ _
      · rw [List.lookup_cons, beq_false_of_ne same] at found
        exact (ih found).trans (le_max_right _ _)

theorem depths_flatMap_lt (inner : Value → List Value) (nested : Value.depths values < fuel + 1)
    (some : present values ≠ [])
    (deeper : ∀ v ∈ present values, 0 < v.depth ∧ ∀ x ∈ inner v, x.depth < v.depth) :
    Value.depths ((present values).flatMap inner) < fuel := by
  have below := depths_le_iff.mp (Nat.le_of_lt_succ nested)
  obtain ⟨first, rest, isPresent⟩ := List.exists_cons_of_ne_nil some
  have member : first ∈ present values := isPresent ▸ List.mem_cons_self
  have positive := (deeper first member).1.trans_le (below first (mem_present.mp member).1)
  obtain ⟨n, rfl⟩ := Nat.exists_eq_add_one.mpr positive
  refine Nat.lt_succ_of_le (depths_le_iff.mpr ?_)
  intro x isInner
  obtain ⟨v, inside, isItem⟩ := List.mem_flatMap.mp isInner
  have less := (deeper v inside).2 x isItem
  have depth := below v (mem_present.mp inside).1
  omega

theorem infer_of_only (only : Only kind values) (some : present values ≠ []) :
    infer (fuel + 1) values = match kind with
      | .none => .mixed values
      | .bool => .bool
      | .int => .int64
      | .float => .double
      | .str => .string
      | .list => .list (infer fuel ((present values).flatMap Value.items))
      | .dict => .struct (fieldsOf (present values)) fun field =>
          infer fuel ((present values).map fun v => (v.cells.lookup field).getD .none) := by
  have one (other : Kind) := all_only only some fun k => decide (k = other)
  have number := all_only only some fun k => decide (k = .int ∨ k = .float)
  simp only [infer, if_neg some, one, number]
  cases kind <;> rfl

theorem keeps_of_present (keeps : present values ≠ [] →
    ∀ v ∈ present values, Keeps coerce (infer fuel values) v) :
    ∀ v ∈ values, Keeps coerce (infer fuel values) v := by
  intro v member
  by_cases none : v = .none
  · rw [none]
    exact keeps_none coerce _
  · have inside := mem_present.mpr ⟨member, none⟩
    exact keeps (List.ne_nil_of_mem inside) v inside

theorem keeps_number {type : ArrowType} {v : Value} (kind : v.kind = .int ∨ v.kind = .float)
    (fit : ∀ n, v = .int n → isBigint n = true ∧ n.natAbs ≤ 2 ^ 53)
    (numeric : type = .double ∨ type = .int64 ∧ v.kind = .int) : Keeps coerce type v := by
  rcases numeric with rfl | ⟨rfl, isInt⟩
  · cases v with
    | int n => exact ⟨_, if_pos (fit n rfl).2, .number rfl rfl⟩
    | float q => exact ⟨_, rfl, .number rfl rfl⟩
    | inf negative => exact ⟨_, rfl, .inf negative⟩
    | nan => exact ⟨_, rfl, .nan⟩
    | _ => rcases kind with kind | kind <;> cases kind
  · cases v with
    | int n => exact ⟨_, if_pos (fit n rfl).1, .number rfl rfl⟩
    | _ => cases isInt

theorem infer_numbers (some : present values ≠ [])
    (numeric : ∀ v ∈ present values, v.kind = .int ∨ v.kind = .float) :
    infer (fuel + 1) values = .double ∨
      infer (fuel + 1) values = .int64 ∧ ∀ v ∈ present values, v.kind = .int := by
  have numbers : ((present values).all fun v => v.kind = .int ∨ v.kind = .float) = true := by
    rw [List.all_eq_true]
    exact fun v inside => decide_eq_true (numeric v inside)
  simp only [infer, if_neg some, numbers, if_true]
  split_ifs with bools ints
  · obtain ⟨first, rest, isPresent⟩ := List.exists_cons_of_ne_nil some
    have member : first ∈ present values := isPresent ▸ List.mem_cons_self
    have bool := of_decide_eq_true (List.all_eq_true.mp bools first member)
    rcases numeric first member with kind | kind <;> cases bool.symm.trans kind
  · exact .inr ⟨rfl, fun v inside => of_decide_eq_true (List.all_eq_true.mp ints v inside)⟩
  · exact .inl rfl

theorem isBigint_of_small {n : Int} (small : n.natAbs ≤ 2 ^ 53) : isBigint n = true := by
  unfold isBigint
  simp only [Bool.and_eq_true, decide_eq_true_eq]
  omega

theorem keeps_scalar (only : Only kind values) (scalar : kind = .bool ∨ kind = .str ∨ kind = .int)
    (fit : ∀ n, .int n ∈ values → isBigint n = true) :
    ∀ v ∈ values, Keeps coerce (infer (fuel + 1) values) v := by
  refine keeps_of_present fun some v inside => ?_
  have isKind := kind_of_only only inside
  rw [infer_of_only only some]
  rcases scalar with rfl | rfl | rfl
  · cases v with
    | bool b => exact ⟨_, rfl, .number rfl rfl⟩
    | _ => cases isKind
  · cases v with
    | str s => exact ⟨_, rfl, .str s⟩
    | _ => cases isKind
  · cases v with
    | int n => exact ⟨_, if_pos (fit n (mem_present.mp inside).1), .number rfl rfl⟩
    | _ => cases isKind

theorem keeps_of_uniform (uniform : Uniform values) (nested : Value.depths values < fuel) :
    ∀ v ∈ values, Keeps coerce (infer fuel values) v := by
  induction uniform generalizing fuel with
  | bools only =>
      obtain ⟨fuel, rfl⟩ := Nat.exists_eq_add_one.mpr (Nat.zero_lt_of_lt nested)
      exact keeps_scalar only (.inl rfl) fun n member => (only _ member).elim nofun nofun
  | strings only =>
      obtain ⟨fuel, rfl⟩ := Nat.exists_eq_add_one.mpr (Nat.zero_lt_of_lt nested)
      exact keeps_scalar only (.inr (.inl rfl)) fun n member => (only _ member).elim nofun nofun
  | integers only fit =>
      obtain ⟨fuel, rfl⟩ := Nat.exists_eq_add_one.mpr (Nat.zero_lt_of_lt nested)
      exact keeps_scalar only (.inr (.inr rfl)) fit
  | @numbers values numeric fit =>
      obtain ⟨fuel, rfl⟩ := Nat.exists_eq_add_one.mpr (Nat.zero_lt_of_lt nested)
      refine keeps_of_present fun some v inside => ?_
      have kinds : ∀ v ∈ present values, v.kind = .int ∨ v.kind = .float := by
        intro v inside
        obtain ⟨member, nonempty⟩ := mem_present.mp inside
        exact (numeric v member).resolve_left fun none => nonempty (kind_none_iff.mp none)
      apply keeps_number (kinds v inside)
      · rintro n rfl
        have small := fit n (mem_present.mp inside).1
        exact ⟨isBigint_of_small small, small⟩
      · exact (infer_numbers some kinds).imp_right fun ⟨type, ints⟩ => ⟨type, ints v inside⟩
  | lists only _ ih =>
      obtain ⟨fuel, rfl⟩ := Nat.exists_eq_add_one.mpr (Nat.zero_lt_of_lt nested)
      refine keeps_of_present fun some v inside => ?_
      rw [infer_of_only only some, kind_list_iff.mp (kind_of_only only inside), keeps_list_iff]
      have less := depths_flatMap_lt Value.items nested some fun v inside => by
        rw [kind_list_iff.mp (kind_of_only only inside)]
        exact ⟨Nat.succ_pos _, fun x isItem => Nat.lt_succ_of_le (depths_le_iff.mp le_rfl x isItem)⟩
      rw [flatMap_present rfl] at less ⊢
      exact fun x isItem => ih less x (List.mem_flatMap.mpr ⟨v, (mem_present.mp inside).1, isItem⟩)
  | @dicts values only same _ ih =>
      obtain ⟨fuel, rfl⟩ := Nat.exists_eq_add_one.mpr (Nat.zero_lt_of_lt nested)
      refine keeps_of_present fun some v inside => ?_
      have dict {v : Value} (inside : v ∈ present values) : v = .dict v.cells :=
        kind_dict_iff.mp (kind_of_only only inside)
      have fields {v : Value} (inside : v ∈ present values) :
          fieldsOf (present values) ⊆ v.cells.map Prod.fst := by
        intro field inFields
        obtain ⟨w, other, has⟩ := mem_fieldsOf.mp inFields
        exact same _ _ (dict other ▸ (mem_present.mp other).1) (dict inside ▸ (mem_present.mp inside).1)
          has
      rw [infer_of_only only some, dict inside, keeps_struct_iff
        fun key has => mem_fieldsOf.mpr ⟨v, inside, has⟩]
      refine ⟨fields inside, ?_⟩
      intro key x found
      have inFields := mem_fieldsOf.mpr
        ⟨v, inside, lookup_isSome_iff.mp (Option.isSome_of_eq_some found)⟩
      have less := depths_flatMap_lt (fun v => (v.cells.lookup key).toList) nested some
        fun v inside => by
          rw [dict inside]
          refine ⟨Nat.succ_pos _, fun x isInner => Nat.lt_succ_of_le ?_⟩
          exact depth_lookup_le (Option.mem_toList.mp isInner)
      rw [flatMap_present rfl] at less
      rw [column_eq fun v inside => fields inside inFields]
      apply ih key less
      exact List.mem_flatMap.mpr ⟨v, (mem_present.mp inside).1, Option.mem_toList.mpr found⟩

end Inference

section Scalars

variable {coerce : Coercion} {values : List Value} {kind : Kind} {fuel : Nat} {v out : Value}
  {columns : List (String × Kind)} {payload : Payload} {payloads : List Payload}

theorem store_eq_self (only : Only kind values) (scalar : kind ≠ .list ∧ kind ≠ .dict)
    (member : v ∈ values) (stored : (infer (fuel + 1) values).store coerce v = some out) :
    out = v := by
  by_cases none : v = .none
  · rw [none, store_none] at stored
    rw [none]
    exact (Option.some.inj stored).symm
  · have inside := mem_present.mpr ⟨member, none⟩
    have isKind := kind_of_only only inside
    rw [infer_of_only only (List.ne_nil_of_mem inside)] at stored
    cases kind with
    | none => exact absurd (kind_none_iff.mp isKind) none
    | list => exact absurd rfl scalar.1
    | dict => exact absurd rfl scalar.2
    | int =>
        cases v with
        | int n =>
            simp only [store, Option.ite_none_right_eq_some, Option.some.injEq] at stored
            exact stored.2.symm
        | _ => cases isKind
    | bool | float | str =>
        cases v <;> first | exact (Option.some.inj stored).symm | cases isKind

theorem payload_ext {made : Payload} (keys : made.map Prod.fst = payload.map Prod.fst)
    (distinct : (payload.map Prod.fst).Nodup)
    (lookups : ∀ key ∈ payload.map Prod.fst, made.lookup key = payload.lookup key) :
    made = payload := by
  have rebuilt {cells : Payload} (distinct : (cells.map Prod.fst).Nodup) :
      ((cells.map Prod.fst).map fun key => (key, (cells.lookup key).getD .none)) = cells := by
    rw [List.map_map]
    exact map_lookup distinct
  rw [← rebuilt distinct, ← @rebuilt made (keys ▸ distinct), keys]
  apply List.map_congr_left
  intro key inside
  rw [lookups key inside]

theorem fieldsOf_of_same {fields : List String} (distinct : fields.Nodup) (some : values ≠ [])
    (same : ∀ v ∈ values, v.cells.map Prod.fst = fields) : fieldsOf values = fields := by
  have below : ∀ values : List Value, (∀ v ∈ values, v.cells.map Prod.fst = fields) →
      (values.flatMap fun v => v.cells.map Prod.fst).reverse ⊆ fields.reverse := by
    intro values same field inside
    rw [List.mem_reverse, List.mem_flatMap] at inside
    obtain ⟨v, member, inCells⟩ := inside
    rw [List.mem_reverse, ← same v member]
    exact inCells
  obtain ⟨first, rest, rfl⟩ := List.exists_cons_of_ne_nil some
  unfold fieldsOf
  rw [List.flatMap_cons, same first List.mem_cons_self, List.reverse_append, List.dedup_append,
    List.dedup_eq_self.mpr (List.nodup_reverse.mpr distinct), List.Subset.union_eq_right,
    List.reverse_reverse]
  exact below rest fun v member => same v (List.mem_cons_of_mem _ member)

theorem store_dict_eq_self (distinct : (columns.map Prod.fst).Nodup)
    (scalar : ∀ column ∈ columns, column.2 ≠ .list ∧ column.2 ≠ .dict)
    (typed : ∀ payload ∈ payloads, Typed columns payload) (member : payload ∈ payloads)
    (stored : (infer (fuel + 2) (payloads.map .dict)).store coerce (.dict payload) = some out) :
    out = .dict payload := by
  have only : Only .dict (payloads.map .dict) := by
    intro v inside
    obtain ⟨_, _, rfl⟩ := List.mem_map.mp inside
    exact .inr rfl
  have here : Value.dict payload ∈ present (payloads.map .dict) :=
    mem_present.mpr ⟨List.mem_map_of_mem member, nofun⟩
  have fields : fieldsOf (present (payloads.map .dict)) = columns.map Prod.fst := by
    apply fieldsOf_of_same distinct (List.ne_nil_of_mem here)
    intro v inside
    obtain ⟨payload, listed, rfl⟩ := List.mem_map.mp (mem_present.mp inside).1
    exact (typed payload listed).keys
  rw [infer_of_only only (List.ne_nil_of_mem here), store, fields, Option.map_eq_some_iff] at stored
  obtain ⟨made, all, rfl⟩ := stored
  have keys := (typed payload member).keys
  have sameKeys := (keys_mapM all).trans keys.symm
  have lookups : ∀ key ∈ payload.map Prod.fst, made.lookup key = payload.lookup key := by
    intro key inPayload
    rw [keys] at inPayload
    obtain ⟨⟨field, kind⟩, column, rfl⟩ := List.mem_map.mp inPayload
    obtain ⟨x, found, _⟩ := (typed payload member).lookup distinct column
    have inMade : field ∈ made.map Prod.fst := by
      rw [keys_mapM all]
      exact List.mem_map_of_mem column
    obtain ⟨y, read⟩ := Option.isSome_iff_exists.mp (lookup_isSome_iff.mpr inMade)
    have stored := lookup_mapM all (List.mem_map_of_mem column)
    rw [read, found, Option.getD_some] at stored
    have onlyKind : Only kind ((present (payloads.map .dict)).map
        fun v => (v.cells.lookup field).getD .none) := by
      intro w inside
      obtain ⟨v, listed, rfl⟩ := List.mem_map.mp inside
      obtain ⟨other, isPayload, rfl⟩ := List.mem_map.mp (mem_present.mp listed).1
      obtain ⟨z, isThere, isKind⟩ := (typed other isPayload).lookup distinct column
      rw [Value.cells, isThere]
      exact isKind
    have inColumn := List.mem_map_of_mem (f := fun v => (v.cells.lookup field).getD .none) here
    rw [Value.cells, found, Option.getD_some] at inColumn
    rw [read, found, store_eq_self onlyKind (scalar _ column) inColumn stored.symm]
  rw [payload_ext sameKeys (keys ▸ distinct) lookups]

end Scalars

end ArrowType

end DeepFeeder
