import LakeSchema.Proofs.Sql.Closed

/-!
# How deep in brackets

Round and angle brackets nest what stands between them. `depthBehind?` follows their depth through
what a text shows, and stops where a bracket closes nothing or where something separates outside of
all brackets. A contained text is stopped nowhere and closes what it opens.
-/

namespace LakeSchema.Sql

/-- Among columns only literals and names hide what they hold. -/
def columnLexis : Lexis :=
  fun region _ => region == .literal || region == .name

theorem columnLexis_near : columnLexis.Near :=
  fun _ _ _ => rfl

/-- Whether a character ends what stands in front of it: a comma, a semicolon or the first character
of a comment. -/
def separates (c : Char) (next : Option Char) : Bool :=
  c == ',' || c == ';' || c == '-' && next == some '-' || c == '/' && next == some '*'

/-- The depth behind a character; none where a bracket closes nothing or where something separates
outside of all brackets. -/
def depthStep? (depth : Nat) (c : Char) (next : Option Char) : Option Nat :=
  if c == '(' || c == '<' then some (depth + 1)
  else if c == ')' || c == '>' then
    if depth = 0 then none else some (depth - 1)
  else if depth = 0 && separates c next then none
  else some depth

/-- The depth behind a text. -/
def depthBehind? (depth : Nat) : List Char → Option Nat
  | [] => some depth
  | c :: rest => (depthStep? depth c rest.head?).bind fun behind => depthBehind? behind rest

/-- A text that stays in one piece among columns. -/
def Contained (s : String) : Prop :=
  depthBehind? 0 (shown columnLexis s.toList) = some 0

instance (s : String) : Decidable (Contained s) :=
  inferInstanceAs (Decidable (_ = _))

/-- A text that leads from one depth to another, and from the code to the code. -/
structure Spans (d : Nat) (s : String) (e : Nat) : Prop where
  depth : depthBehind? d (shown columnLexis s.toList) = some e
  ends : placeAfter columnLexis .outside s.toList = .outside

instance (d : Nat) (s : String) (e : Nat) : Decidable (Spans d s e) :=
  decidable_of_iff (depthBehind? d (shown columnLexis s.toList) = some e ∧
      placeAfter columnLexis .outside s.toList = .outside)
    ⟨fun ⟨depth, ends⟩ => ⟨depth, ends⟩, fun ⟨depth, ends⟩ => ⟨depth, ends⟩⟩

variable {a b cs : List Char} {c d : Char} {n m k : Nat} {s t : String} {p q : Place}

/-! ### Where texts meet -/

theorem separates_apart (apart : (c, d) ∉ pairs) : separates c (some d) = separates c none := by
  simp only [pairs, List.mem_cons, Prod.mk.injEq, List.not_mem_nil, or_false, not_or] at apart
  have line : (c == '-' && some d == some '-') = (c == '-' && none == some '-') := by simp_all
  have block : (c == '/' && some d == some '*') = (c == '/' && none == some '*') := by simp_all
  rw [separates, separates, line, block]

theorem depthBehind?_append (apart : Apart a b) :
    depthBehind? n (a ++ b) = (depthBehind? n a).bind fun m => depthBehind? m b := by
  induction a generalizing n with
  | nil => rfl
  | cons c rest ih =>
    have same : depthStep? n c (rest ++ b).head? = depthStep? n c rest.head? := by
      cases rest with
      | cons d rest => rfl
      | nil =>
        cases b with
        | nil => rfl
        | cons d b =>
          have apart := separates_apart (apart c rfl d rfl)
          rw [depthStep?, depthStep?, List.nil_append, List.head?_cons, apart, List.head?_nil]
    rw [List.cons_append, depthBehind?, depthBehind?, same, Option.bind_assoc]
    exact Option.bind_congr fun behind _ => ih apart.of_cons

/-- What is hidden makes up no mark. -/
theorem Apart.shown (apart : Apart a b) :
    Apart (shownFrom columnLexis p a) (shownFrom columnLexis q b) := by
  intro c last d first pair
  rw [Option.mem_def, List.getLast?_eq_getElem?, shownFrom_length] at last
  rw [Option.mem_def, List.head?_eq_getElem?] at first
  obtain ⟨edgeC, edgeD⟩ := mem_edges_of_pair pair
  have solid : ' ' ∉ edges := by decide
  have last := getElem?_of_shownFrom last fun same => solid (same ▸ edgeC)
  have first := getElem?_of_shownFrom first fun same => solid (same ▸ edgeD)
  rw [← List.getLast?_eq_getElem?] at last
  rw [← List.head?_eq_getElem?] at first
  exact apart c last d first pair

/-- The depth behind two texts is the one behind the second, counted from behind the first. -/
theorem depth_append (apart : Apart a b) (p : Place) :
    depthBehind? n (shownFrom columnLexis p (a ++ b)) =
      (depthBehind? n (shownFrom columnLexis p a)).bind fun m =>
        depthBehind? m (shownFrom columnLexis (placeAfter columnLexis p a) b) := by
  rw [(scan_append columnLexis_near apart p).1, depthBehind?_append apart.shown]

theorem Spans.depth_append (spans : Spans n s m) (apart : Apart s.toList t.toList) :
    depthBehind? n (shown columnLexis (s ++ t).toList) =
      depthBehind? m (shown columnLexis t.toList) := by
  rw [String.toList_append, shown, Sql.depth_append apart, ← shown, spans.depth, spans.ends]
  rfl

theorem Spans.append (first : Spans n s m) (second : Spans m t k)
    (apart : Apart s.toList t.toList) : Spans n (s ++ t) k where
  depth := (first.depth_append apart).trans second.depth
  ends := by
    rw [String.toList_append, (scan_append columnLexis_near apart .outside).2, first.ends,
      second.ends]

/-- Where a scan stands among columns behind an open quote or backtick. -/
def quotedPlaces : List Place :=
  [⟨.literal, false⟩, ⟨.literal, true⟩, ⟨.name, false⟩]

theorem behind_mem_quotedPlaces (here : p ∈ .outside :: quotedPlaces) (c : Char)
    (rest : List Char) : p.behind columnLexis c rest ∈ .outside :: quotedPlaces := by
  simp only [quotedPlaces, List.mem_cons, List.not_mem_nil, or_false] at here
  rcases here with rfl | rfl | rfl | rfl
  · cases opened : columnLexis.opened? c rest with
    | none => simp [Place.behind, Place.outside, opened]
    | some region =>
      have known : region = .literal ∨ region = .name := by
        simpa [columnLexis] using (opened?_eq_some opened).2
      rcases known with rfl | rfl <;>
        simp [Place.behind, Place.outside, opened, quotedPlaces, Region.hasPairs]
  · simp only [Place.behind]
    repeat' split
    all_goals decide
  · simp [Place.behind, quotedPlaces]
  · simp only [Place.behind]
    repeat' split
    all_goals decide

/-- A scan among columns ends in the code or behind an open quote or backtick. -/
theorem placeAfter_mem_quotedPlaces (here : p ∈ .outside :: quotedPlaces) :
    placeAfter columnLexis p cs ∈ .outside :: quotedPlaces := by
  induction cs generalizing p with
  | nil => exact here
  | cons c rest ih => exact ih (behind_mem_quotedPlaces here c rest)

/-- Behind an open quote or backtick, nothing is shown of a text without signs. -/
theorem scans_quoted (inside : p ∈ quotedPlaces) (nonempty : cs ≠ [])
    (quiet : cs.all fun c => !('\\' :: signs).contains c) :
    Scans columnLexis (· = ' ') p cs ⟨p.region, false⟩ := by
  induction cs generalizing p with
  | nil => contradiction
  | cons c rest ih =>
    obtain ⟨here, later⟩ := Bool.and_eq_true_iff.mp quiet
    simp only [signs, edges, List.cons_append, List.nil_append, Bool.not_eq_true', List.mem_cons,
      List.contains_eq_mem, decide_eq_false_iff_not, List.not_mem_nil, or_false, not_or] at here
    have step : p.behind columnLexis c rest = ⟨p.region, false⟩ ∧
        p.shows columnLexis c rest = false ∧ ⟨p.region, false⟩ ∈ quotedPlaces := by
      simp only [quotedPlaces, List.mem_cons, List.not_mem_nil, or_false] at inside
      rcases inside with rfl | rfl | rfl <;>
        exact ⟨by simp [Place.behind, here], rfl, by decide⟩
    obtain ⟨stays, hides, quoted⟩ := step
    refine .hidden rfl hides ?_
    rw [stays]
    cases rest with
    | nil => exact ⟨List.forall_mem_nil _, rfl⟩
    | cons d rest => exact ih quoted (List.cons_ne_nil _ _) later

/-! ### Depths -/

theorem depthStep?_injective {next : Option Char} (first : depthStep? n c next = some k)
    (second : depthStep? m c next = some k) : n = m := by
  unfold depthStep? at first second
  grind

/-- Different depths stay different. -/
theorem depthBehind?_injective (first : depthBehind? n cs = some k)
    (second : depthBehind? m cs = some k) : n = m := by
  induction cs generalizing n m with
  | nil => exact (Option.some.inj first).trans (Option.some.inj second).symm
  | cons c rest ih =>
    obtain ⟨_, stepN, endsN⟩ := Option.bind_eq_some_iff.mp first
    obtain ⟨_, stepM, endsM⟩ := Option.bind_eq_some_iff.mp second
    obtain rfl := ih endsN endsM
    exact depthStep?_injective stepN stepM

/-! ### Texts that keep the depth -/

/-- The characters that nest or separate. -/
def turns : List Char :=
  ['(', ')', '<', '>', ',', ';', '-', '/']

theorem depthBehind?_of_all (quiet : ∀ c ∈ cs, c ∉ turns) : depthBehind? n cs = some n := by
  induction cs with
  | nil => rfl
  | cons c rest ih =>
    obtain ⟨here, later⟩ := List.forall_mem_cons.mp quiet
    simp only [turns, List.mem_cons, List.not_mem_nil, or_false, not_or] at here
    have step : depthStep? n c rest.head? = some n := by simp [depthStep?, separates, here]
    rw [depthBehind?, step, Option.bind_some, ih later]

/-- A text that keeps the depth wherever it stands, and makes up no mark with the texts around it. -/
structure Level (s : String) : Prop extends Plain s where
  spans : ∀ n, Spans n s n

theorem Level.append (first : Level s) (second : Level t) : Level (s ++ t) where
  toPlain := first.toPlain.append second.toPlain
  spans n := (first.spans n).append (second.spans n) (first.apart _)

theorem level_of_scans (plain : Plain s)
    (scans : Scans columnLexis (· ∉ turns) .outside s.toList .outside) : Level s where
  toPlain := plain
  spans _ := ⟨depthBehind?_of_all scans.each, scans.ends⟩

theorem level_of_all (quiet : ∀ c ∈ s.toList, c ∉ signs ++ turns) : Level s := by
  have calm : ∀ c ∈ s.toList, c ∉ signs := fun c member sign =>
    quiet c member (List.mem_append_left _ sign)
  obtain ⟨same, ends⟩ := scan_of_all columnLexis calm
  refine level_of_scans (plain_of_all calm) ⟨fun c member turn => ?_, ends⟩
  exact quiet c (same ▸ member) (List.mem_append_right _ turn)

theorem level_words (quiet : s.toList.all (fun c => !(signs ++ turns).contains c) = true) :
    Level s := by
  refine level_of_all fun c member => ?_
  simpa using List.all_eq_true.mp quiet c member

theorem level_quoteIdentifier (name : String) : Level (quoteIdentifier name) := by
  rcases quoteIdentifier_toList name with ⟨same, plain⟩ | same
  · exact level_of_all (same.symm ▸ not_mem_of_isPlainName plain (List.all_iff_forall_prop.mp rfl))
  · refine level_of_scans (plain_quoteIdentifier name) ?_
    exact same.symm ▸ scans_inBackticks (by decide) (fun _ => rfl) (by decide) name.toList

theorem level_stringLiteral (text : String) : Level (stringLiteral text) :=
  level_of_scans (plain_stringLiteral text)
    (scans_stringLiteral (by decide) (fun _ => rfl) (by decide) text)

end LakeSchema.Sql
