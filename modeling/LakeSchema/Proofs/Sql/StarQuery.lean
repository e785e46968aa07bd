import LakeSchema.Proofs.Sql.Layout

/-!
# Queries of whole tables

Which tables are found of those that a query lists behind `FROM` and joins: the first one and those
that are joined, while the ones behind commas are passed over (`StarQuery.tables_eq_iff`).
-/

namespace LakeSchema.Query

open Sql

section

variable {c : Char} {cs : List Char}

/-! ### Names of the query -/

/-- A name that can be read back from a query, with no beginning of a comment in it. -/
structure Legible (name : String) : Prop extends Readable name where
  chain : name.toList.IsChain BeginNoComment

theorem markless_of_isPlainName (plain : isPlainName cs = true) : Markless cs :=
  markless_of_all fun c member => by
    have part := isIdentifierPart_of_isPlainName plain c member
    constructor <;>
    · rintro rfl
      revert part
      decide

theorem toLower_toUpper (c : Char) : c.toUpper.toLower = c.toLower := by
  by_cases ascii : c.toNat < 128
  · exact Text.ascii_induct (motive := fun c => c.toUpper.toLower = c.toLower) (by decide) ascii
  · rw [toUpper_of_not_ascii ascii]

/-- A word without S and K has no other form than its letters. -/
theorem low_eq_of_spells {letters word : List Char} (alone : 'S' ∉ letters ∧ 'K' ∉ letters)
    (spells : List.Forall₂ (fun letter c => isLetter letter c = true) letters word) :
    low word = low letters := by
  induction spells with
  | nil => rfl
  | @cons letter c letters word here _ ih =>
    obtain ⟨s, noS⟩ := not_or.mp (List.mem_cons.not.mp alone.1)
    obtain ⟨k, noK⟩ := not_or.mp (List.mem_cons.not.mp alone.2)
    have upper : c.toUpper = letter := by simpa [isLetter, Ne.symm s, Ne.symm k] using here
    exact congrArg₂ List.cons (by rw [← upper, toLower_toUpper]) (ih ⟨noS, noK⟩)

/-- `FROM` and `JOIN` are reserved. -/
theorem Simple.not_isLeadWord {name : String} (simple : Simple name) : ¬IsLeadWord name.toList := by
  have reserved {word : String} (same : low name.toList = low word.toList) :
      isReserved name = isReserved word := by
    rw [isReserved, isReserved,
      Text.lowered_eq_of_asciiLowered_eq (Text.asciiLowered_eq_iff.mpr same)]
  rintro (spells | spells)
  · have other := reserved (low_eq_of_spells (by decide) spells)
    rw [simple.2] at other
    exact absurd other (by decide)
  · have other := reserved (low_eq_of_spells (by decide) spells)
    rw [simple.2] at other
    exact absurd other (by decide)

theorem Simple.passes {name : String} (simple : Simple name) : Passes name.toList :=
  passes_word simple.isName.ne_nil (fun c member =>
    isQueryNamePart_of_isIdentifierPart (isIdentifierPart_of_isPlainName simple.1 c member))
    simple.not_isLeadWord

theorem Simple.legible {name : String} (simple : Simple name) : Legible name where
  toReadable := simple.readable
  chain := (markless_of_isPlainName simple.1).chain

theorem Simple.solid {name : String} (simple : Simple name) :
    ∀ c ∈ name.toList, Text.isSpace c = false :=
  fun c member => isSpace_of_isQueryNamePart (isQueryNamePart_of_isIdentifierPart
    (isIdentifierPart_of_isPlainName simple.1 c member))

theorem leadless_of_solid (solid : ∀ c ∈ cs, Text.isSpace c = false) : Leadless cs := by
  rintro front lead back rfl ⟨word, spaces, rfl, -, some, blank⟩
  obtain ⟨c, spaces, rfl⟩ := List.exists_cons_of_ne_nil some
  have space := blank c List.mem_cons_self
  rw [solid c (by simp)] at space
  cases space

theorem Legible.markless {name : String} (legible : Legible name) :
    Markless (quoteIdentifier name).toList := by
  have tick : backtick ≠ '-' ∧ backtick ≠ '/' := by decide
  rcases legible.toReadable.quoteIdentifier_toList with ⟨simple, same⟩ | same <;> rw [same]
  · exact markless_of_isPlainName simple.1
  · refine ⟨List.isChain_append.mpr ⟨List.isChain_cons.mpr ⟨fun c _ => beginNoComment tick c,
      legible.chain⟩, .singleton _, fun c _ d first => ?_⟩, fun c last => ?_⟩
    · cases first
      exact ⟨fun marks => absurd marks.2 (by decide), fun marks => absurd marks.2 (by decide)⟩
    · rw [List.getLast?_concat] at last
      cases last
      exact tick

theorem Legible.passes {name : String} (legible : Legible name) (leadless : Leadless name.toList) :
    Passes (quoteIdentifier name).toList := by
  rcases legible.toReadable.quoteIdentifier_toList with ⟨simple, same⟩ | same <;> rw [same]
  · exact simple.passes
  · exact passes_quoted leadless

end

/-! ### Queries of whole tables -/

/-- How much of its place a table is named with. -/
inductive Scope where
  | bare
  | schema
  | catalog

/-- The names in front of the name of a table. -/
def Scope.names (p : Project) : Scope → List String
  | bare => []
  | schema => [p.schemaName]
  | catalog => [p.catalogName, p.schemaName]

/-- A table that a query reads, and the name that the query has for it. -/
structure Item where
  scope : Scope
  table : Table
  nickname : Option String

def Item.parts (p : Project) (i : Item) : List String :=
  i.scope.names p ++ [i.table.name]

def Item.tokens (p : Project) (i : Item) : List String :=
  quoteQualified (i.parts p) :: i.nickname.toList

/-- A query of all columns of some tables: a first one, further ones behind commas, and ones that are
joined. -/
structure StarQuery where
  first : Item
  further : List Item
  joined : List Item

namespace StarQuery

def items (q : StarQuery) : List Item :=
  q.first :: q.further ++ q.joined

def tokens (p : Project) (q : StarQuery) : List String :=
  ["SELECT", "*", "FROM"] ++ q.first.tokens p ++ q.further.flatMap ("," :: ·.tokens p) ++
    q.joined.flatMap fun i => "JOIN" :: i.tokens p ++ ["ON", "1", "=", "1"]

end StarQuery

/-- The item names a table of the project, with names that can be read back. -/
structure Item.Fits (p : Project) (i : Item) : Prop where
  present : i.table ∈ p.tables
  nickname : ∀ name ∈ i.nickname, Simple name
  legible : ∀ name ∈ i.scope.names p, Legible name

/-- All items fit, and behind commas no prefix holds `FROM` or `JOIN`. -/
structure StarQuery.Fits (p : Project) (q : StarQuery) : Prop where
  items : ∀ i ∈ q.items, i.Fits p
  leadless : ∀ i ∈ q.further, ∀ name ∈ i.scope.names p, Leadless name.toList

variable {p : Project} {sql : String} {i : Item} {q : StarQuery} {tokens : List String}
  {text : List Char} {references : List (List Char)}

/-- The names of the reference to the table, as the query writes them. -/
def Item.written (p : Project) (i : Item) : List (List Char) :=
  (i.parts p).map fun name => (quoteIdentifier name).toList

theorem Item.toList_reference (p : Project) (i : Item) :
    (quoteQualified (i.parts p)).toList = dotted (i.written p) :=
  toList_quoteQualified _

theorem Item.written_ne_nil (p : Project) (i : Item) : i.written p ≠ [] := by
  simp [Item.written, Item.parts]

theorem Item.length_written_le (p : Project) (i : Item) : (i.written p).length ≤ 3 := by
  cases scope : i.scope <;> simp [Item.written, Item.parts, Scope.names, scope]

theorem Item.Fits.legible_parts (fits : i.Fits p) (simple : ∀ t ∈ p.tables, Simple t.name) :
    ∀ name ∈ i.parts p, Legible name := by
  intro name member
  rcases List.mem_append.mp member with outer | last
  · exact fits.legible name outer
  · exact List.mem_singleton.mp last ▸ (simple _ fits.present).legible

theorem Item.Fits.isName (fits : i.Fits p) (simple : ∀ t ∈ p.tables, Simple t.name) :
    ∀ name ∈ i.written p, IsName name :=
  List.forall_mem_map.mpr fun name member =>
    (fits.legible_parts simple name member).toReadable.isName

theorem isMark_of_isName {token : String} {name rest : List Char}
    (same : token.toList = name ++ rest) (isName : IsName name) : isMark token = false := by
  have others : ∀ c ∈ marks, ¬(isQueryNameStart c = true ∨ c = backtick) :=
    List.all_iff_forall_prop.mp rfl
  obtain ⟨c, tail, rfl, starts⟩ := isName.starts
  refine Bool.eq_false_iff.mpr fun mark => ?_
  obtain ⟨d, member, alone⟩ := toList_of_isMark mark
  rw [same] at alone
  obtain ⟨rfl, -⟩ := List.cons.inj alone
  exact others c member starts

theorem Item.Fits.isMark_reference (fits : i.Fits p) (simple : ∀ t ∈ p.tables, Simple t.name) :
    isMark (quoteQualified (i.parts p)) = false := by
  obtain ⟨name, names, same⟩ := List.exists_cons_of_ne_nil (i.written_ne_nil p)
  have first := fits.isName simple name (by rw [same]; exact List.mem_cons_self)
  exact isMark_of_isName (by rw [Item.toList_reference, same, dotted_cons]) first

theorem Item.Fits.passes (fits : i.Fits p) (simple : ∀ t ∈ p.tables, Simple t.name)
    (leadless : ∀ name ∈ i.scope.names p, Leadless name.toList) :
    Passes (quoteQualified (i.parts p)).toList := by
  rw [Item.toList_reference]
  refine passes_dotted (List.forall_mem_map.mpr fun name member => ?_) (i.written_ne_nil p)
  refine (fits.legible_parts simple name member).passes ?_
  rcases List.mem_append.mp member with outer | last
  · exact leadless name outer
  · exact List.mem_singleton.mp last ▸ leadless_of_solid (simple _ fits.present).solid

/-! ### The references of such a query -/

theorem Reading.behind (fits : i.Fits p) (later : Reading tokens references) :
    Reading (i.nickname.toList ++ tokens) references := by
  cases called : i.nickname with
  | none => exact later
  | some name =>
    have simple := fits.nickname name called
    exact .word (isMark_of_isName (List.append_nil _).symm simple.isName)
      simple.passes later

theorem Reading.item {lead : String} (isLead : lead = "FROM" ∨ lead = "JOIN") (fits : i.Fits p)
    (simple : ∀ t ∈ p.tables, Simple t.name) (later : Reading tokens references) :
    Reading (lead :: i.tokens p ++ tokens) (dotted (i.written p) :: references) :=
  .table isLead (fits.isMark_reference simple) (fits.isName simple) (i.written_ne_nil p)
    (i.length_written_le p) (i.toList_reference p) (later.behind fits)

theorem Reading.further {items : List Item} (fits : ∀ i ∈ items, i.Fits p)
    (leadless : ∀ i ∈ items, ∀ name ∈ i.scope.names p, Leadless name.toList)
    (simple : ∀ t ∈ p.tables, Simple t.name) (later : Reading tokens references) :
    Reading (items.flatMap ("," :: ·.tokens p) ++ tokens) references := by
  induction items with
  | nil => exact later
  | cons i items ih =>
    obtain ⟨here, others⟩ := List.forall_mem_cons.mp fits
    obtain ⟨bare, others'⟩ := List.forall_mem_cons.mp leadless
    rw [List.flatMap_cons, List.append_assoc]
    exact .mark (by decide) (.word (here.isMark_reference simple) (here.passes simple bare)
      ((ih others others').behind here))

theorem passes_keyword {token : String} (some : token.toList ≠ [])
    (parts : token.toList.all isQueryNamePart = true) (other : token.toList.length ≠ 4) :
    Passes token.toList :=
  passes_word some (List.all_eq_true.mp parts) fun lead => other lead.length

theorem reading_joined {items : List Item} (fits : ∀ i ∈ items, i.Fits p)
    (simple : ∀ t ∈ p.tables, Simple t.name) :
    Reading (items.flatMap fun i => "JOIN" :: i.tokens p ++ ["ON", "1", "=", "1"])
      (items.map fun i => dotted (i.written p)) := by
  induction items with
  | nil => exact .nil
  | cons i items ih =>
    obtain ⟨here, others⟩ := List.forall_mem_cons.mp fits
    have one : Passes "1".toList := passes_keyword (by decide) (by decide) (by decide)
    have on : Passes "ON".toList := passes_keyword (by decide) (by decide) (by decide)
    rw [List.flatMap_cons, List.append_assoc]
    exact .item (.inr rfl) here simple (.word (by decide) on (.word (by decide) one
      (.mark (by decide) (.word (by decide) one (ih others)))))

theorem StarQuery.Fits.reading (fits : q.Fits p) (simple : ∀ t ∈ p.tables, Simple t.name) :
    Reading (q.tokens p) ((q.first :: q.joined).map fun i => dotted (i.written p)) := by
  have select : Passes "SELECT".toList := passes_keyword (by decide) (by decide) (by decide)
  obtain ⟨first, others⟩ := List.forall_mem_cons.mp fits.items
  obtain ⟨further, joined⟩ := List.forall_mem_append.mp others
  rw [StarQuery.tokens, List.append_assoc, List.append_assoc]
  exact .word (by decide) select (.mark (by decide) (.item (.inl rfl) first simple
    (.further further fits.leadless simple (reading_joined joined simple))))

theorem markless_dotted {names : List (List Char)} (each : ∀ name ∈ names, Markless name) :
    Markless (dotted names) := by
  cases names with
  | nil => exact markless_of_all nofun
  | cons name names =>
    rw [dotted_cons]
    induction names generalizing name with
    | nil => simpa using each
    | cons next names ih =>
      obtain ⟨here, later⟩ := List.forall_mem_cons.mp each
      have dot : Markless ['.'] := markless_of_all (List.forall_mem_singleton.mpr (by decide))
      rw [List.flatMap_cons, List.cons_append]
      exact here.append (dot.append (ih next later))

theorem StarQuery.Fits.markless (fits : q.Fits p) (simple : ∀ t ∈ p.tables, Simple t.name) :
    ∀ token ∈ q.tokens p, Markless token.toList := by
  have words : ∀ token ∈ ["SELECT", "*", "FROM", ",", "JOIN", "ON", "1", "=", "1"],
      (token.toList.all fun c => c != '-' && c != '/') = true := by decide
  have word {token : String}
      (member : token ∈ ["SELECT", "*", "FROM", ",", "JOIN", "ON", "1", "=", "1"]) :
      Markless token.toList := markless_of_all fun c inside => by
    simpa using List.all_eq_true.mp (words token member) c inside
  have item (i : Item) (member : i ∈ q.items) : ∀ token ∈ i.tokens p, Markless token.toList := by
    have here := fits.items i member
    refine List.forall_mem_cons.mpr ⟨?_, fun name called => ?_⟩
    · rw [i.toList_reference]
      exact markless_dotted (List.forall_mem_map.mpr fun name part =>
        (here.legible_parts simple name part).markless)
    · exact markless_of_isPlainName (here.nickname name (by simpa using called)).1
  have first := item q.first List.mem_cons_self
  have further (i : Item) (member : i ∈ q.further) := item i (by simp [StarQuery.items, member])
  have joined (i : Item) (member : i ∈ q.joined) := item i (by simp [StarQuery.items, member])
  have clause (i : Item) (member : i ∈ q.joined) :
      ∀ token ∈ "JOIN" :: i.tokens p ++ ["ON", "1", "=", "1"], Markless token.toList :=
    List.forall_mem_append.mpr ⟨List.forall_mem_cons.mpr ⟨word (by decide), joined i member⟩,
      fun token last => word (List.mem_append_right ["SELECT", "*", "FROM", ",", "JOIN"] last)⟩
  rw [StarQuery.tokens, List.forall_mem_append, List.forall_mem_append, List.forall_mem_append]
  refine ⟨⟨⟨fun token start => word ?_, first⟩, fun token member => ?_⟩, fun token member => ?_⟩
  · exact List.mem_append_left [",", "JOIN", "ON", "1", "=", "1"] start
  · obtain ⟨i, inside, here⟩ := List.mem_flatMap.mp member
    rcases List.mem_cons.mp here with rfl | here
    · exact word (by decide)
    · exact further i inside token here
  · obtain ⟨i, inside, here⟩ := List.mem_flatMap.mp member
    exact clause i inside token here

theorem Item.Fits.tableNamed? (fits : i.Fits p) (simple : ∀ t ∈ p.tables, Simple t.name)
    (differ : TablesDiffer p) : p.tableNamed? (tableName (String.ofList
      (folding.text (dotted (i.written p))))) = some i.table := by
  have isName := fits.isName simple
  have last := simple _ fits.present
  have folded : unquoted (folding.text i.table.name.toList) = Text.asciiLowered i.table.name := by
    have spelled := folding.text_word last.solid []
    rw [List.append_nil, Respelling.text, List.append_nil] at spelled
    have clear : backtick ∉ low i.table.name.toList := fun member => by
      obtain ⟨c, inside, tick⟩ := List.mem_map.mp member
      exact last.readable.clear (toLower_eq_backtick_iff.mp tick ▸ inside)
    rw [spelled]
    exact unquoted_clear clear (by simpa using last.legible.some)
  have named : tableName (String.ofList (folding.text (dotted (i.written p)))) =
      Text.asciiLowered i.table.name := by
    rw [respelled_dotted isName, tableName, parts_dotted (List.forall_mem_map.mpr fun name member =>
      (isName name member).respelled folding) (by simp [i.written_ne_nil p])]
    simp [Item.written, Item.parts, last.quoteIdentifier, folded]
  rw [named, tableNamed?_asciiLowered]
  exact differ.tableNamed?_eq fits.present (beq_self_eq_true _)

/-- What stands in front makes no difference exactly if what follows begins with it. -/
theorem eraseDups_append_eq_iff {α : Type} [BEq α] [LawfulBEq α] {front items : List α} :
    items.eraseDups = (front ++ items).eraseDups ↔ front.eraseDups <+: items.eraseDups := by
  have once (items : List α) : items.eraseDups.eraseDups = items.eraseDups := by
    simpa using eraseDups_filterMap some items
  rw [List.eraseDups_append]
  constructor
  · intro same
    exact ⟨_, same.symm⟩
  · rintro ⟨rest, same⟩
    have filtered : (items.removeAll front).eraseDups =
        (rest.removeAll front.eraseDups).eraseDups := by
      have kept := eraseDups_filterMap (Option.guard fun a => !front.elem a) items
      rw [List.filterMap_eq_filter, ← same, List.filter_append,
        List.filter_eq_nil_iff.mpr (by simp), List.nil_append] at kept
      rw [List.removeAll, List.removeAll, ← kept]
      refine congrArg List.eraseDups (List.filter_congr fun a _ => ?_)
      rw [Bool.eq_iff_iff]
      simp
    calc items.eraseDups
      _ = (front.eraseDups ++ rest).eraseDups := by rw [same, once]
      _ = front.eraseDups ++ (rest.removeAll front.eraseDups).eraseDups := by
        rw [List.eraseDups_append, once]
      _ = front.eraseDups ++ (items.removeAll front).eraseDups := by rw [filtered]

namespace StarQuery

/-- The tables of such a query that are found are the first one and those that are joined. So all of
them are found exactly if those behind commas come first among these as well. -/
theorem tables_eq_iff (simple : ∀ t ∈ p.tables, Simple t.name) (differ : TablesDiffer p)
    (fits : q.Fits p) (laid : Laid (q.tokens p) text)
    (same : Text.sameIgnoringCase sql (String.ofList text) = true) :
    Query.tables p sql = ((q.first :: q.joined).map (·.table.id)).eraseDups ∧
      (Query.tables p sql = (q.items.map (·.table.id)).eraseDups ↔
        ((q.first :: q.further).map (·.table.id)).eraseDups <+:
          ((q.first :: q.joined).map (·.table.id)).eraseDups) := by
  have found : Query.tables p sql = ((q.first :: q.joined).map (·.table.id)).eraseDups := by
    rw [tables_eq_of_sameIgnoringCase same, tables_eq, String.toList_ofList,
      uncommented_eq (laid.markless (fits.markless simple)), mentioned_respelled,
      (fits.reading simple).mentioned_eq laid, List.map_map, List.filterMap_map,
      ← List.filterMap_eq_map]
    refine congrArg List.eraseDups (List.filterMap_congr fun i member => ?_)
    have item : i ∈ q.items := by
      rw [items, List.cons_append]
      exact List.cons_subset_cons _ (List.subset_append_right _ _) member
    simp [(fits.items i item).tableNamed? simple differ]
  refine ⟨found, ?_⟩
  have again : (q.items.map (·.table.id)).eraseDups =
      ((q.first :: q.further).map (·.table.id) ++
        (q.first :: q.joined).map (·.table.id)).eraseDups := by
    rw [items, List.map_append, List.eraseDups_append, List.eraseDups_append, List.map_cons,
      List.map_cons, List.cons_removeAll]
    simp
  rw [found, again, eraseDups_append_eq_iff]

/-- Where the catalog and the schema have simple names, every prefix can be read back. -/
theorem fits_of_simple (catalog : Simple p.catalogName) (schema : Simple p.schemaName)
    (items : ∀ i ∈ q.items, i.table ∈ p.tables ∧ ∀ name ∈ i.nickname, Simple name) : q.Fits p := by
  have simple (scope : Scope) : ∀ name ∈ scope.names p, Simple name := by
    cases scope <;> simp [Scope.names, catalog, schema]
  refine ⟨fun i member => ?_, fun i _ name prefixes =>
    leadless_of_solid (simple _ name prefixes).solid⟩
  obtain ⟨present, nickname⟩ := items i member
  exact ⟨present, nickname, fun name prefixes => (simple _ name prefixes).legible⟩

/-- Tables that are joined, with the first one once more behind a comma. -/
def ordersAgain : StarQuery where
  first := ⟨.bare, .plain "T" "orders" Project.newYear, some "o"⟩
  further := [⟨.catalog, .plain "T" "orders" Project.newYear, none⟩]
  joined := [⟨.schema, .plain "S" "stores" Project.newYear, none⟩]

def ordersWithStores : StarQuery where
  first := ⟨.bare, .plain "T" "orders" Project.newYear, none⟩
  further := [⟨.bare, .plain "S" "stores" Project.newYear, none⟩]
  joined := []

theorem simple_shop : Simple ordersAndStores.catalogName ∧ Simple ordersAndStores.schemaName := by
  decide +kernel

theorem simple_ordersAndStores : ∀ t ∈ ordersAndStores.tables, Simple t.name := by
  decide +kernel

theorem tablesDiffer_ordersAndStores : TablesDiffer ordersAndStores := by
  unfold TablesDiffer
  decide +kernel

theorem ordersAgain_fits : ordersAgain.Fits ordersAndStores := by
  refine fits_of_simple simple_shop.1 simple_shop.2 ?_
  decide +kernel

theorem ordersWithStores_fits : ordersWithStores.Fits ordersAndStores := by
  refine fits_of_simple simple_shop.1 simple_shop.2 ?_
  decide +kernel

/-- With the letters in another case. -/
theorem ordersAgain_found : Query.tables ordersAndStores
      "select * from ORDERS O , main.sales.orders join Sales.Stores on 1 = 1" =
    (ordersAgain.items.map (·.table.id)).eraseDups :=
  (tables_eq_iff simple_ordersAndStores tablesDiffer_ordersAndStores ordersAgain_fits
    (laid_spaced _) (by decide +kernel)).2.mpr (by decide)

/-- The table behind the comma is not found. -/
theorem ordersWithStores_missed : (∀ t ∈ ordersAndStores.tables, Simple t.name) ∧
    TablesDiffer ordersAndStores ∧ ordersWithStores.Fits ordersAndStores ∧
    Laid (ordersWithStores.tokens ordersAndStores) "SELECT * FROM orders , stores".toList ∧
    Query.tables ordersAndStores "SELECT * FROM orders , stores" ≠
      (ordersWithStores.items.map (·.table.id)).eraseDups :=
  ⟨simple_ordersAndStores, tablesDiffer_ordersAndStores, ordersWithStores_fits, laid_spaced _,
    by decide +kernel⟩

end StarQuery

end LakeSchema.Query
