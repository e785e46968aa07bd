import LakeSchema.Proofs.Compile.ScriptReading
import LakeSchema.Proofs.Yaml.Dollars
import Mathlib.Data.List.Infix

/-!
# What stands between dollar signs

The statement of a metric view holds its definition as YAML between two delimiters of two dollar signs
each. YAML takes no notice of them, so the delimiters are the only ones exactly if no text of the
definition holds two dollar signs in a row (`compile_delimited_iff`).
-/

namespace LakeSchema

open Yaml

/-! ### Delimiters -/

/-- At how many places of a text a delimiter begins. -/
def delimiters (cs : List Char) : Nat :=
  cs.tails.countP fun tail => ['$', '$'].isPrefixOf tail

variable {a b cs : List Char}

theorem delimiters_cons (c : Char) (cs : List Char) :
    delimiters (c :: cs) =
      delimiters cs + if ['$', '$'].isPrefixOf (c :: cs) then 1 else 0 := by
  rw [delimiters, List.tails_cons, List.countP_cons]
  rfl

theorem delimiters_eq_zero_iff : delimiters cs = 0 ↔ LoneDollars cs := by
  rw [loneDollars_iff_occursIn]
  induction cs with
  | nil => exact iff_of_true rfl rfl
  | cons c cs ih =>
    rw [delimiters_cons, Text.occursIn, Bool.or_eq_false_iff, Nat.add_eq_zero_iff, ih, and_comm]
    refine and_congr_left' ?_
    cases ['$', '$'].isPrefixOf (c :: cs) <;> simp

/-- No delimiter begins where another text follows on one that does not end in a dollar sign. -/
theorem delimiters_append (apart : a.getLast? ≠ some '$') :
    delimiters (a ++ b) = delimiters a + delimiters b := by
  induction a with
  | nil => simp [delimiters]
  | cons c a ih =>
    rw [List.cons_append, delimiters_cons, delimiters_cons]
    cases a with
    | nil =>
      have other : ('$' == c) = false := beq_false_of_ne fun same => apart (same ▸ rfl)
      simp [delimiters, List.isPrefixOf, other]
    | cons d a =>
      have later : (d :: a).getLast? ≠ some '$' := by rwa [List.getLast?_cons_cons] at apart
      have same : ['$', '$'].isPrefixOf (c :: (d :: a ++ b)) =
          ['$', '$'].isPrefixOf (c :: d :: a) := by
        simp [List.isPrefixOf]
      rw [ih later, same]
      omega

theorem delimiters_body (members : Json.Members) :
    delimiters (" $$\n" ++ document members ++ "$$").toList =
      delimiters (document members).toList + 2 := by
  have opening : " $$\n".toList.getLast? ≠ some '$' := by decide
  have opens : delimiters " $$\n".toList = 1 := by decide
  have closes : delimiters "$$".toList = 1 := by decide
  rw [String.append_assoc, String.toList_append, String.toList_append, delimiters_append opening,
    delimiters_append (getLast?_document members), opens, closes]
  omega

/-! ### Texts of a definition -/

mutual

def JoinDefinition.texts : JoinDefinition → List String
  | ⟨name, source, condition, columns, kind, joins⟩ =>
    [name, source] ++ condition.toList ++ columns ++ kind.toList ++ JoinDefinition.listTexts joins

def JoinDefinition.listTexts : List JoinDefinition → List String
  | [] => []
  | join :: rest => JoinDefinition.texts join ++ JoinDefinition.listTexts rest

end

def NamedExpression.texts (e : NamedExpression) : List String :=
  [e.name, e.expr]

/-- All that a definition says: names, sources, conditions and expressions. -/
def MetricDefinition.texts (d : MetricDefinition) : List String :=
  [d.version, d.source] ++ d.filter.toList ++ JoinDefinition.listTexts d.joins ++
    d.dimensions.flatMap NamedExpression.texts ++ d.measures.flatMap NamedExpression.texts

/-- In none of the texts two dollar signs stand in a row. -/
def LoneWords (words : List String) : Prop :=
  ∀ word ∈ words, LoneDollars word.toList

variable {as bs : List String} {ms ns : Json.Members} {name : String}

theorem loneWords_append : LoneWords (as ++ bs) ↔ LoneWords as ∧ LoneWords bs :=
  List.forall_mem_append

theorem loneWords_cons {s : String} : LoneWords (s :: as) ↔ LoneDollars s.toList ∧ LoneWords as :=
  List.forall_mem_cons

theorem loneWords_nil : LoneWords [] :=
  nofun

theorem memberWords_append : memberWords (ms ++ ns) = memberWords ms ++ memberWords ns := by
  induction ms with
  | nil => rfl
  | cons member ms ih =>
    obtain ⟨name, value⟩ := member
    rw [List.cons_append, memberWords, memberWords, ih, List.append_assoc]

theorem itemWords_map_string (texts : List String) : itemWords (texts.map .string) = texts := by
  induction texts with
  | nil => rfl
  | cons s texts ih => rw [List.map_cons, itemWords, ih, words, List.singleton_append]

section Member

variable (free : '$' ∉ name.toList)
include free

theorem loneWords_member {value : Json} : LoneWords (memberWords ((name, value) :: ms)) ↔
    LoneWords (words value) ∧ LoneWords (memberWords ms) := by
  rw [memberWords, List.cons_append, loneWords_cons, loneWords_append]
  exact and_iff_right (loneDollars_of_free free)

theorem loneWords_optionalString {text : Option String} :
    LoneWords (memberWords (Json.optionalString name text)) ↔ LoneWords text.toList := by
  cases text with
  | none => exact Iff.rfl
  | some s => exact (loneWords_member free).trans (and_iff_left loneWords_nil)

theorem loneWords_listMember {items : List Json} :
    LoneWords (memberWords (Json.listMember name items)) ↔ LoneWords (itemWords items) := by
  cases items with
  | nil => exact Iff.rfl
  | cons item items => exact (loneWords_member free).trans (and_iff_left loneWords_nil)

end Member

mutual

theorem loneWords_join : (join : JoinDefinition) →
    (LoneWords (words join.toJson) ↔ LoneWords join.texts)
  | ⟨name, source, condition, columns, kind, joins⟩ => by
    rw [JoinDefinition.toJson, words, JoinDefinition.texts]
    simp only [memberWords_append, loneWords_append]
    rw [loneWords_member (by decide), loneWords_member (by decide),
      loneWords_optionalString (by decide), loneWords_optionalString (by decide),
      loneWords_listMember (by decide), loneWords_listMember (by decide), itemWords_map_string,
      loneWords_joins joins]
    simp [words, memberWords, loneWords_cons, loneWords_nil]

theorem loneWords_joins : (joins : List JoinDefinition) →
    (LoneWords (itemWords (JoinDefinition.listToJson joins)) ↔
      LoneWords (JoinDefinition.listTexts joins))
  | [] => Iff.rfl
  | join :: joins => by
    rw [JoinDefinition.listToJson, itemWords, JoinDefinition.listTexts, loneWords_append,
      loneWords_append, loneWords_join join, loneWords_joins joins]

end

theorem loneWords_expressions (items : List NamedExpression) :
    LoneWords (itemWords (items.map NamedExpression.toJson)) ↔
      LoneWords (items.flatMap NamedExpression.texts) := by
  induction items with
  | nil => exact Iff.rfl
  | cons e items ih =>
    rw [List.map_cons, itemWords, List.flatMap_cons, loneWords_append, loneWords_append, ih,
      NamedExpression.toJson, words, loneWords_member (by decide), loneWords_member (by decide)]
    simp [words, memberWords, NamedExpression.texts, loneWords_cons, loneWords_nil]

/-- Of the words of a definition's YAML only its texts can hold dollar signs. -/
theorem loneWords_members (d : MetricDefinition) :
    LoneWords (memberWords d.members) ↔ LoneWords d.texts := by
  rw [MetricDefinition.members, MetricDefinition.texts]
  simp only [memberWords_append, loneWords_append]
  rw [loneWords_member (by decide), loneWords_member (by decide),
    loneWords_optionalString (by decide), loneWords_listMember (by decide),
    loneWords_listMember (by decide), loneWords_listMember (by decide), loneWords_joins,
    loneWords_expressions, loneWords_expressions]
  simp [words, memberWords, loneWords_cons, loneWords_nil]

/-! ### Statements -/

namespace Project

variable {p : Project} {options : CompileOptions} {statements : List Statement} {v : MetricView}

theorem exists_metricViewStatement (compiled : p.compile options = .ok statements)
    (member : v ∈ p.metricViews) :
    ∃ d, v.definition p (p.target options) = .ok d ∧
      ⟨v.id, .metricView, .createMetricView, (p.target options).qualified v.name,
        (p.target options).metricViewHeader v.name ++ " $$\n" ++ document d.members ++ "$$"⟩ ∈
          statements.map (·.toContent) := by
  obtain ⟨none, tables, views, -, created, rfl⟩ := compile_eq_ok_iff.mp compiled
  obtain ⟨made, done⟩ := metricViewStatements_eq_ok_iff.mpr
    ((problems_eq_nil_iff.mp none).source member)
  have included := (forall_mem_flatten_iff created).mp (fun _ here => here) v member made done
  obtain ⟨sql, written, wrapped⟩ := bind_eq_ok_iff.mp done
  obtain rfl := Except.ok.inj wrapped
  obtain ⟨d, defined, rendered⟩ := bind_eq_ok_iff.mp written
  obtain rfl := Except.ok.inj rendered
  have listed := included _ List.mem_cons_self
  refine ⟨d, defined, ?_⟩
  rw [Statement.map_toContent_numbered]
  exact List.mem_append_left _ (List.mem_append_right _ listed)

/-- A metric view of a compiled project is created by a statement with its whole definition between
delimiters, and there are no further ones exactly if no text of the definition holds two dollar signs
in a row. -/
theorem compile_delimited_iff (compiled : p.compile options = .ok statements)
    (member : v ∈ p.metricViews) :
    ∃ d body, v.definition p (p.target options) = .ok d ∧
      body = " $$\n" ++ document d.members ++ "$$" ∧
      ⟨v.id, .metricView, .createMetricView, (p.target options).qualified v.name,
        (p.target options).metricViewHeader v.name ++ body⟩ ∈ statements.map (·.toContent) ∧
      (delimiters body.toList = 2 ↔
        ∀ text ∈ d.texts, Text.occursIn ['$', '$'] text.toList = false) := by
  obtain ⟨d, defined, created⟩ := exists_metricViewStatement compiled member
  refine ⟨d, _, defined, rfl, ?_, ?_⟩
  · simpa only [String.append_assoc] using created
  · rw [delimiters_body, Nat.add_eq_right, delimiters_eq_zero_iff, loneDollars_document_iff]
    simp only [← loneDollars_iff_occursIn]
    exact loneWords_members d

/-- The orders that a condition holds for. -/
def orderMetrics (condition : String) : MetricView :=
  { MetricView.plain "V" "order_metrics" "T" newYear with filter := some condition }

def filteredOrders (condition : String) : Project :=
  { Project.empty "P" "shop" "main" "sales" newYear with
    tables := [{ Table.plain "T" "orders" newYear with fields := [.plain "F" "price" .string] }]
    metricViews := [orderMetrics condition] }

/-- A dollar sign on its own is taken into the body. -/
theorem filteredOrders_delimited : ∃ statements d body,
    (filteredOrders "price <> '$'").compile .standard = .ok statements ∧
      (orderMetrics "price <> '$'").definition (filteredOrders "price <> '$'")
        ((filteredOrders "price <> '$'").target .standard) = .ok d ∧
      body = " $$\n" ++ document d.members ++ "$$" ∧ delimiters body.toList = 2 := by
  have compilable : (filteredOrders "price <> '$'").Compilable := problems_eq_nil_iff.mp (by decide)
  obtain ⟨statements, compiled⟩ := compilable.compiles .standard
  obtain ⟨d, body, defined, whole, -, twice⟩ :=
    compile_delimited_iff compiled (List.mem_singleton.mpr rfl)
  refine ⟨statements, d, body, compiled, defined, whole, twice.mpr ?_⟩
  obtain rfl := Except.ok.inj defined
  decide +kernel

/-- Two dollar signs in a filter stand in the body as they are. -/
theorem filteredOrders_not_delimited : ∃ statements header body,
    (filteredOrders "price <> '$$'").compile .standard = .ok statements ∧
      header = ((filteredOrders "price <> '$$'").target .standard).metricViewHeader "order_metrics" ∧
      ⟨"V", .metricView, .createMetricView, "main.sales.order_metrics", header ++ body⟩ ∈
        statements.map (·.toContent) ∧
      delimiters body.toList = 3 := by
  have compilable : (filteredOrders "price <> '$$'").Compilable := problems_eq_nil_iff.mp (by decide)
  obtain ⟨statements, compiled⟩ := compilable.compiles .standard
  obtain ⟨d, defined, listed⟩ := exists_metricViewStatement compiled (List.mem_singleton.mpr rfl)
  rw [String.append_assoc, String.append_assoc] at listed
  obtain rfl := Except.ok.inj defined
  refine ⟨statements, _, _, compiled, rfl, listed, ?_⟩
  decide +kernel

end Project
end LakeSchema
