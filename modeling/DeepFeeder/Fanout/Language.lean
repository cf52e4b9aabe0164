import Mathlib.Data.List.Forall2
import DeepFeeder.Core.Values
import DeepFeeder.Fanout.Schemas
import DeepFeeder.Shared.QuotedText

set_option autoImplicit false

namespace DeepFeeder

def Value.isStr (v : Value) (text : String) : Bool :=
  match v with
  | .str s => s == text
  | _ => false

def Value.isBool (v : Value) (b : Bool) : Bool :=
  match v with
  | .bool b' => b' == b
  | _ => false

theorem Value.isStr_iff {v : Value} {text : String} : v.isStr text = true ↔ v = .str text := by
  cases v <;> simp [isStr]

def symbolFilterExpr (spec : SchemaSpec) (symbol : String) : String :=
  spec.symbolCol ++ "==`" ++ symbol ++ "`"

-- The same test, as `snapshot_range` spells it.
def rangeSymbolFilter (spec : SchemaSpec) (symbol : String) : String :=
  spec.symbolCol ++ " == `" ++ symbol ++ "`"

section Exchanges

variable [Uppercase]

def exchangeFilters (spec : SchemaSpec) (exchange : Option String) : List String :=
  match exchange with
  | none | some "" => []
  | some exchange =>
      if spec.cols.contains "Exchange" then ["Exchange == `" ++ upper exchange ++ "`"] else []

def tests (spec : SchemaSpec) (symbol : String) (exchange : Option String) :
    List (String × String) :=
  (spec.symbolCol, symbol) :: match exchange with
    | none | some "" => []
    | some exchange =>
        if spec.cols.contains "Exchange" then [("Exchange", upper exchange)] else []

end Exchanges

def backtick : Char := Char.ofNat 96

/-- The expression compares the column with the string and does nothing else. -/
def EqualityTest (text col value : String) : Prop :=
  ∃ code, QuotedText.pieces backtick text.toList = [.code code, .literal value.toList] ∧
    code.filter (· ≠ ' ') = (col ++ "==").toList

/-- The server's query language. A text that it does not compile makes the call raise; of the others
only the equality tests are known. -/
class QueryLanguage where
  compile : String → Option (Row → Bool)
  equality : ∀ {text col value : String}, EqualityTest text col value →
    compile text = some fun row => (row.get col).isStr value

def compiles [QueryLanguage] (text : String) : Bool := (QueryLanguage.compile text).isSome

def holds [QueryLanguage] (text : String) (row : Row) : Bool :=
  (QueryLanguage.compile text).any fun filter => filter row

def plainNames (spec : SchemaSpec) (symbol : String) (exchange : Option String) : Bool :=
  !symbol.toList.contains backtick && exchange.all fun exchange =>
    !spec.cols.contains "Exchange" || !exchange.toList.contains backtick

theorem plainNames_iff {spec : SchemaSpec} {symbol : String} {exchange : Option String} :
    plainNames spec symbol exchange = true ↔ backtick ∉ symbol.toList ∧
      ∀ name, exchange = some name → spec.cols.contains "Exchange" = true →
        backtick ∉ name.toList := by
  cases exchange with
  | none => simp [plainNames]
  | some name => by_cases column : "Exchange" ∈ spec.cols <;> simp [plainNames, column]

section Texts

variable {spec : SchemaSpec} {symbol : String} {exchange : Option String} {text col value : String}

theorem equalityTest_quoted_iff {code : String} (plain : backtick ∉ code.toList)
    (some : code.toList ≠ []) (compares : code.toList.filter (· ≠ ' ') = (col ++ "==").toList) :
    EqualityTest (code ++ "`" ++ value ++ "`") col value ↔ backtick ∉ value.toList := by
  have letters : (code ++ "`" ++ value ++ "`").toList =
      code.toList ++ backtick :: (value.toList ++ [backtick]) := by
    simp [backtick]
  unfold EqualityTest
  rw [letters]
  constructor
  · rintro ⟨read, split, -⟩
    exact (QuotedText.pieces_quoted plain some split).2.2
  · exact fun absent =>
      ⟨code.toList, QuotedText.pieces_quoted_of_plain plain some absent, compares⟩

theorem not_equalityTest_quoted {code spliced : String} (plain : backtick ∉ code.toList)
    (some : code.toList ≠ []) (inside : backtick ∈ spliced.toList) :
    ¬ EqualityTest (code ++ "`" ++ spliced ++ "`") col value := by
  have letters : (code ++ "`" ++ spliced ++ "`").toList =
      code.toList ++ backtick :: (spliced.toList ++ [backtick]) := by
    simp [backtick]
  rintro ⟨read, split, -⟩
  rw [letters] at split
  exact (QuotedText.pieces_quoted plain some split).2.2 inside

theorem symbolFilterExpr_test_iff (column : spec.symbolCol = "Symbol") :
    EqualityTest (symbolFilterExpr spec symbol) spec.symbolCol symbol ↔ backtick ∉ symbol.toList := by
  have text : symbolFilterExpr spec symbol = "Symbol==" ++ "`" ++ symbol ++ "`" := by
    unfold symbolFilterExpr
    rw [column]
    rfl
  rw [text, column]
  exact equalityTest_quoted_iff (by decide) (by decide) (by decide)

theorem rangeSymbolFilter_eq (column : spec.symbolCol = "Symbol") :
    rangeSymbolFilter spec symbol = "Symbol == " ++ "`" ++ symbol ++ "`" := by
  unfold rangeSymbolFilter
  rw [column]
  rfl

theorem rangeSymbolFilter_test_iff (column : spec.symbolCol = "Symbol") :
    EqualityTest (rangeSymbolFilter spec symbol) spec.symbolCol symbol ↔
      backtick ∉ symbol.toList := by
  rw [rangeSymbolFilter_eq column, column]
  exact equalityTest_quoted_iff (by decide) (by decide) (by decide)

theorem exchange_text (exchange : String) :
    "Exchange == `" ++ exchange ++ "`" = "Exchange == " ++ "`" ++ exchange ++ "`" := rfl

theorem exchange_test_iff (exchange : String) :
    EqualityTest ("Exchange == `" ++ exchange ++ "`") "Exchange" exchange ↔
      backtick ∉ exchange.toList := by
  rw [exchange_text]
  exact equalityTest_quoted_iff (by decide) (by decide) (by decide)

theorem exchangeFilters_test_iff [Uppercase] (spec : SchemaSpec) (symbol : String)
    (exchange : Option String) :
    List.Forall₂ (fun text test => EqualityTest text test.1 test.2) (exchangeFilters spec exchange)
        (tests spec symbol exchange).tail ↔
      ∀ name, exchange = some name → spec.cols.contains "Exchange" = true →
        backtick ∉ name.toList := by
  unfold exchangeFilters tests
  rw [List.tail_cons]
  cases exchange with
  | none => simp
  | some exchange =>
      by_cases none : exchange = ""
      · subst none
        simp
      · simp only [Option.some.injEq, forall_eq']
        by_cases column : spec.cols.contains "Exchange" = true
        · simp only [column, if_true, List.forall₂_cons, exchange_test_iff]
          rw [backtick, backtick_mem_upper]
          simp
        · simp only [column]
          simp

theorem filters_tests [Uppercase] (column : spec.symbolCol = "Symbol")
    (plain : plainNames spec symbol exchange = true) :
    List.Forall₂ (fun text test => EqualityTest text test.1 test.2)
        (symbolFilterExpr spec symbol :: exchangeFilters spec exchange)
        (tests spec symbol exchange) ∧
      List.Forall₂ (fun text test => EqualityTest text test.1 test.2)
        (rangeSymbolFilter spec symbol :: exchangeFilters spec exchange)
        (tests spec symbol exchange) := by
  obtain ⟨symbolPlain, exchangePlain⟩ := plainNames_iff.mp plain
  have others := (exchangeFilters_test_iff spec symbol exchange).mpr exchangePlain
  exact ⟨.cons ((symbolFilterExpr_test_iff column).mpr symbolPlain) others,
    .cons ((rangeSymbolFilter_test_iff column).mpr symbolPlain) others⟩

end Texts

section Reading

variable [QueryLanguage] {text : String} {row : Row}

theorem holds_of_test {col value : String} (tested : EqualityTest text col value) :
    holds text row = (row.get col).isStr value := by
  rw [holds, QueryLanguage.equality tested, Option.any_some]

theorem compiles_of_test {col value : String} (tested : EqualityTest text col value) :
    compiles text = true := by
  rw [compiles, QueryLanguage.equality tested, Option.isSome_some]

theorem holds_all_of_tests {texts : List String} {tests : List (String × String)}
    (tested : List.Forall₂ (fun text test => EqualityTest text test.1 test.2) texts tests)
    (row : Row) :
    (texts.all fun text => holds text row) = tests.all fun test => (row.get test.1).isStr test.2 := by
  induction tested with
  | nil => rfl
  | cons head _ ih => rw [List.all_cons, List.all_cons, holds_of_test head, ih]

theorem compiles_all_of_tests {texts : List String} {tests : List (String × String)}
    (tested : List.Forall₂ (fun text test => EqualityTest text test.1 test.2) texts tests) :
    texts.all compiles = true := by
  induction tested with
  | nil => rfl
  | cons head _ ih => rw [List.all_cons, compiles_of_test head, ih, Bool.true_and]

end Reading

def readEquality (text : String) : Option (String × String) :=
  match QuotedText.pieces backtick text.toList with
  | [.code code, .literal value] =>
      let letters := code.filter (· ≠ ' ')
      let col := letters.take (letters.length - 2)
      if letters = col ++ ['=', '='] then some (String.ofList col, String.ofList value) else none
  | _ => none

theorem readEquality_iff {text col value : String} :
    readEquality text = some (col, value) ↔ EqualityTest text col value := by
  unfold readEquality EqualityTest
  constructor
  · intro read
    split at read
    next code literal split_ =>
      simp only at read
      split at read
      next compares =>
        cases read
        rw [String.toList_ofList, String.toList_append, String.toList_ofList]
        exact ⟨code, split_, compares⟩
      next => cases read
    next => cases read
  · rintro ⟨code, split_, compares⟩
    rw [split_]
    simp only [compares, String.toList_append]
    simp

abbrev equalityTests : QueryLanguage where
  compile text := (readEquality text).map fun test row => (row.get test.1).isStr test.2
  equality tested := by rw [readEquality_iff.mpr tested, Option.map_some]

theorem compiles_equalityTests {text : String} :
    @compiles equalityTests text = true ↔ ∃ col value, EqualityTest text col value := by
  change ((readEquality text).map _).isSome = true ↔ _
  rw [Option.isSome_map, Option.isSome_iff_exists, Prod.exists]
  exact exists_congr fun _ => exists_congr fun _ => readEquality_iff

theorem exchangeFilters_given [Uppercase] {spec : SchemaSpec} {name : String} (some_ : name ≠ "")
    (column : spec.cols.contains "Exchange" = true) :
    exchangeFilters spec (some name) = ["Exchange == `" ++ upper name ++ "`"] := by
  unfold exchangeFilters
  split
  next none_ => cases none_
  next empty => cases empty; exact absurd rfl some_
  next given =>
    cases given
    rw [if_pos column]

end DeepFeeder
