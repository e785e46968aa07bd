import LakeSchema.Proofs.Sql.Reading
import LakeSchema.Proofs.Sql.TableReference
import LakeSchema.Proofs.Text.TopLevel

/-!
# Arithmetic in expressions

Columns, integers, signs, the four operators, brackets and window functions, read with the usual
precedence and from left to right (`Reads`). A reader that keeps what still waits for its right
operand comes from any text that reads as a tree to that tree, whatever waits before it
(`settled_run`), so no text reads as two trees (`Reads.unique`).
-/

namespace LakeSchema.Sql

/-! ### Trees and their texts -/

inductive Operator where
  | add
  | subtract
  | multiply
  | divide
deriving DecidableEq

/-- How much of an expression hangs together: the less, the tighter. -/
inductive Precedence where
  | factor
  | product
  | sum
deriving DecidableEq

namespace Precedence

def rank : Precedence → Nat
  | factor => 0
  | product => 1
  | sum => 2

def tighter : Precedence → Precedence
  | sum => product
  | _ => factor

theorem rank_tighter (level : Precedence) : level.tighter.rank ≤ level.rank := by
  cases level <;> decide

end Precedence

namespace Operator

def mark : Operator → Char
  | add => '+'
  | subtract => '-'
  | multiply => '*'
  | divide => '/'

def level : Operator → Precedence
  | add | subtract => .sum
  | multiply | divide => .product

def ofMark? (c : Char) : Option Operator :=
  [add, subtract, multiply, divide].find? (·.mark == c)

end Operator

/-- What an expression computes. A window is known by the text of its clause. -/
inductive Arithmetic where
  | column (parts : List NamePart)
  | integer (value : Nat)
  | signed (sign : Operator) (operand : Arithmetic)
  | operation (left : Arithmetic) (operator : Operator) (right : Arithmetic)
  | window (function : String) (operand : Arithmetic) (clause : String)
  /-- A window function with an offset as its second argument. -/
  | shifted (function : String) (operand offset : Arithmetic) (clause : String)

open Operator (mark)

/-- The texts of a tree. The left operand of an operation may be one of the same level, the right
one is tighter. Window functions stand only where a `clause` is given, and all with that one. There
are no comments, so two minus signs in a row are two signs. -/
inductive Reads (clause : Option String) : Precedence → List Char → Arithmetic → Prop where
  | column {cs parts} (name : nameParts? .front cs = some parts) :
    Reads clause .factor cs (.column parts)
  | integer {cs} (digits : ∀ c ∈ cs, c.isDigit = true) (nonempty : cs ≠ []) :
    Reads clause .factor cs (.integer (Text.decimalValue cs))
  | brackets {cs x} (inner : Reads clause .sum cs x) :
    Reads clause .factor ('(' :: (cs ++ [')'])) x
  | signed {sign cs x} (weak : sign.level = .sum) (operand : Reads clause .factor cs x) :
    Reads clause .factor (mark sign :: cs) (.signed sign x)
  | window {words function cs x} (given : clause = some words)
    (plain : isPlainName function.toList = true) (operand : Reads clause .sum cs x) :
    Reads clause .factor (function.toList ++ '(' :: (cs ++ ')' :: ' ' :: words.toList))
      (.window function x words)
  | shifted {words function cs x ds k} (given : clause = some words)
    (plain : isPlainName function.toList = true) (operand : Reads clause .sum cs x)
    (offset : Reads clause .sum ds k) :
    Reads clause .factor (function.toList ++ '(' :: (cs ++ ',' :: (ds ++ ')' :: ' ' :: words.toList)))
      (.shifted function x k words)
  | spaceBefore {c cs x} (blank : Text.isSpace c = true) (factor : Reads clause .factor cs x) :
    Reads clause .factor (c :: cs) x
  | spaceBehind {c cs x} (factor : Reads clause .factor cs x) (blank : Text.isSpace c = true) :
    Reads clause .factor (cs ++ [c]) x
  | tight {level cs x} (inner : Reads clause level.tighter cs x) : Reads clause level cs x
  | operation {level op cs x ds y} (same : op.level = level) (left : Reads clause level cs x)
    (right : Reads clause level.tighter ds y) :
    Reads clause level (cs ++ mark op :: ds) (.operation x op y)

/-! ### A reader of expressions -/

namespace Arithmetic

/-- What has been read and waits for what follows. -/
inductive Pending where
  | sign (sign : Operator)
  | left (operand : Arithmetic) (operator : Operator)
  | bracket
  | call (function : String)
  | offset (function : String) (operand : Arithmetic)

/-- Takes an operand as the right one of all that waits for it at a level. -/
def settle (level : Precedence) : List Pending → Arithmetic → List Pending × Arithmetic
  | .sign sign :: rest, x => settle level rest (.signed sign x)
  | .left y op :: rest, x =>
    if op.level.rank ≤ level.rank then settle level rest (.operation y op x)
    else (.left y op :: rest, x)
  | pending, x => (pending, x)

/-- How far the reading of an expression has come. -/
structure State where
  pending : List Pending
  operand : Option Arithmetic
  /-- The name or number that is being read, last character first. -/
  word : List Char
  /-- Whether the word is inside backticks. -/
  ticked : Bool
  /-- The characters of a clause that are still to come. -/
  skipped : Nat

namespace State

def waiting (pending : List Pending) : State :=
  { pending, operand := none, word := [], ticked := false, skipped := 0 }

def holding (pending : List Pending) (x : Arithmetic) : State :=
  { waiting pending with operand := some x }

/-- Behind the brackets of a window function, with so much of its clause still to come. -/
def passing (skipped : Nat) (pending : List Pending) (x : Arithmetic) : State :=
  { holding pending x with skipped }

/-- The operand that a word is. -/
def atom (cs : List Char) : Arithmetic :=
  match nameParts? .front cs with
  | some parts => .column parts
  | none => .integer (Text.decimalValue cs)

/-- Takes the word as the operand. -/
def flush (s : State) : State :=
  if s.word.isEmpty then s else { s with operand := some (atom s.word.reverse), word := [] }

def settled (level : Precedence) (s : State) : State :=
  match s.operand with
  | some x =>
    let (pending, y) := settle level s.pending x
    { s with pending, operand := some y }
  | none => s

def opened (s : State) : State :=
  if s.word.isEmpty then { s with pending := .bracket :: s.pending }
  else { s with pending := .call (String.ofList s.word.reverse) :: s.pending, word := [] }

/-- Behind a closing bracket. -/
def closed (words : String) (s : State) : State :=
  match s.pending, s.operand with
  | .bracket :: rest, _ => { s with pending := rest }
  | .call function :: rest, some x =>
    { s with
      pending := rest
      operand := some (.window function x words)
      skipped := words.toList.length + 1 }
  | .offset function x :: rest, some k =>
    { s with
      pending := rest
      operand := some (.shifted function x k words)
      skipped := words.toList.length + 1 }
  | _, _ => s

/-- Behind the first argument of a window function. -/
def next (s : State) : State :=
  match s.pending, s.operand with
  | .call function :: rest, some x =>
    { s with pending := .offset function x :: rest, operand := none }
  | _, _ => s

/-- Behind a mark, which is a sign where no operand stands before it. -/
def operated (op : Operator) (s : State) : State :=
  let t := s.settled op.level
  match t.operand with
  | some x => { t with pending := .left x op :: t.pending, operand := none }
  | none => { t with pending := .sign op :: t.pending }

def punctuated (words : String) (c : Char) (s : State) : State :=
  if c == ')' then (s.settled .sum).closed words
  else if c == ',' then (s.settled .sum).next
  else
    match Operator.ofMark? c with
    | some op => s.operated op
    | none => s

def isNameChar (c : Char) : Bool :=
  Text.isIdentifierPart c || c == '.' || c == backtick

def step (words : String) (s : State) (c : Char) : State :=
  if 0 < s.skipped then { s with skipped := s.skipped - 1 }
  else if s.ticked then { s with word := c :: s.word, ticked := c != backtick }
  else if isNameChar c then { s with word := c :: s.word, ticked := c == backtick }
  else if c == '(' then s.opened
  else s.flush.punctuated words c

def run (words : String) : State → List Char → State :=
  List.foldl (step words)

end State

variable {words : String} {level loose : Precedence} {pending : List Pending} {s : State}
  {x y : Arithmetic} {c : Char} {cs ds : List Char} {op : Operator}

open State

/-! ### What waits for an operand -/

theorem settle_settle (within : level.rank ≤ loose.rank) (pending : List Pending) (x : Arithmetic) :
    settle loose (settle level pending x).1 (settle level pending x).2 = settle loose pending x := by
  induction pending generalizing x with
  | nil => rfl
  | cons first rest ih =>
    cases first with
    | sign sign => exact ih _
    | left y op =>
      by_cases here : op.level.rank ≤ level.rank
      · rw [settle, if_pos here, ih, settle, if_pos (here.trans within)]
      · rw [settle, if_neg here]
    | bracket | call | offset => rfl

theorem settled_settled (within : level.rank ≤ loose.rank) (s : State) :
    (s.settled level).settled loose = s.settled loose := by
  obtain ⟨pending, operand, word, ticked, skipped⟩ := s
  cases operand with
  | none => rfl
  | some x =>
    have same := settle_settle within pending x
    simp only [settled, same]

/-- Nothing waits that would take an operand of a level, other than a sign a single factor. -/
def Free (level : Precedence) : List Pending → Prop
  | .sign _ :: _ => level = .factor
  | .left _ op :: _ => level.rank < op.level.rank
  | _ => True

theorem Free.tighter (free : Free level pending) : Free level.tighter pending := by
  cases pending with
  | nil => trivial
  | cons first rest =>
    cases first with
    | sign sign =>
      obtain rfl : level = .factor := free
      rfl
    | left y op => exact Nat.lt_of_le_of_lt level.rank_tighter free
    | bracket | call | offset => trivial

theorem Free.settled (free : Free level pending) (loose : level ≠ .factor) :
    (holding pending x).settled level = holding pending x := by
  cases pending with
  | nil => rfl
  | cons first rest =>
    cases first with
    | sign sign => exact absurd free loose
    | left y op =>
      have same : settle level (.left y op :: rest) x = (.left y op :: rest, x) :=
        if_neg (Nat.not_le_of_lt free)
      simp only [State.settled, holding, waiting, same]
    | bracket | call | offset => rfl

theorem settled_left (within : op.level.rank ≤ level.rank) :
    (holding (.left y op :: pending) x).settled level =
      (holding pending (.operation y op x)).settled level := by
  have same : settle level (.left y op :: pending) x = settle level pending (.operation y op x) :=
    if_pos within
  simp only [State.settled, holding, waiting, same]

/-! ### Steps -/

theorem run_append (s : State) (cs ds : List Char) :
    run words s (cs ++ ds) = run words (run words s cs) ds :=
  List.foldl_append

theorem run_cons (s : State) (c : Char) (cs : List Char) :
    run words s (c :: cs) = run words (step words s c) cs :=
  rfl

/-- No clause is being passed over, and the word is outside backticks. -/
def State.Plain (s : State) : Prop :=
  s.ticked = false ∧ s.skipped = 0

theorem plain_waiting (pending : List Pending) : (waiting pending).Plain :=
  ⟨rfl, rfl⟩

/-- What stands behind an operand, whatever of what waits it has been given to. -/
theorem plain_of_settled (held : s.flush.settled level = (holding pending x).settled loose) :
    s.Plain := by
  have unchanged : ∀ (level : Precedence) (s : State),
      (s.settled level).ticked = s.ticked ∧ (s.settled level).skipped = s.skipped := by
    intro level s
    unfold State.settled
    split <;> exact ⟨rfl, rfl⟩
  have flushed : s.flush.ticked = s.ticked ∧ s.flush.skipped = s.skipped := by
    unfold State.flush
    split <;> exact ⟨rfl, rfl⟩
  obtain ⟨ticked, skipped⟩ := unchanged level s.flush
  obtain ⟨outside, none⟩ := unchanged loose (holding pending x)
  rw [held, flushed.1] at ticked
  rw [held, flushed.2] at skipped
  exact ⟨ticked.symm.trans outside, skipped.symm.trans none⟩

theorem step_mark (plain : s.Plain) (other : isNameChar c = false) (inner : (c == '(') = false) :
    step words s c = s.flush.punctuated words c := by
  obtain ⟨outside, none⟩ := plain
  simp [step, outside, none, other, inner]

theorem step_operator (plain : s.Plain) : step words s op.mark = s.flush.operated op := by
  have other : isNameChar op.mark = false ∧ (op.mark == '(') = false := by
    cases op <;> exact ⟨by decide, by decide⟩
  rw [step_mark plain other.1 other.2]
  cases op <;> rfl

theorem step_closing (plain : s.Plain) :
    step words s ')' = (s.flush.settled .sum).closed words := by
  rw [step_mark plain (by decide) (by decide)]
  rfl

theorem step_comma (plain : s.Plain) : step words s ',' = (s.flush.settled .sum).next := by
  rw [step_mark plain (by decide) (by decide)]
  rfl

theorem isNameChar_of_isSpace (blank : Text.isSpace c = true) : isNameChar c = false := by
  refine Bool.eq_false_iff.mpr fun named => ?_
  rcases Bool.or_eq_true_iff.mp named with named | tick
  · rcases Bool.or_eq_true_iff.mp named with part | dot
    · have solid := Query.isSpace_of_isQueryNamePart (Query.isQueryNamePart_of_isIdentifierPart part)
      rw [blank] at solid
      cases solid
    · obtain rfl := beq_iff_eq.mp dot
      cases blank
  · obtain rfl := beq_iff_eq.mp tick
    cases blank

theorem step_space (plain : s.Plain) (blank : Text.isSpace c = true) : step words s c = s.flush := by
  have apart : ∀ d, Text.isSpace d = false → (c == d) = false := by
    rintro d solid
    refine beq_false_of_ne ?_
    rintro rfl
    rw [blank] at solid
    cases solid
  have free : Operator.ofMark? c = none := by
    refine List.find?_eq_none.mpr fun op _ same => ?_
    obtain rfl := beq_iff_eq.mp same
    cases op <;> cases blank
  rw [step_mark plain (isNameChar_of_isSpace blank) (apart _ (by decide)), punctuated,
    apart _ (by decide), if_neg Bool.false_ne_true, apart _ (by decide), if_neg Bool.false_ne_true,
    free]

/-! ### Words -/

/-- Whether the reading of a name is inside backticks. -/
def within : NameReading → Bool
  | .quoted _ => true
  | _ => false

variable {parts : List NamePart} {reading : NameReading} {operand : Option Arithmetic}
  {word : List Char}

theorem step_word (named : isNameChar c = true) :
    step words ⟨pending, operand, word, false, 0⟩ c =
      ⟨pending, operand, c :: word, c == backtick, 0⟩ := by
  simp [step, named]

theorem isNameChar_of_isIdentifierPart (part : Text.isIdentifierPart c = true) :
    isNameChar c = true := by
  simp [isNameChar, part]

theorem step_part (part : Text.isIdentifierPart c = true) :
    step words ⟨pending, operand, word, false, 0⟩ c = ⟨pending, operand, c :: word, false, 0⟩ := by
  have other : (c == backtick) = false := by
    refine beq_false_of_ne ?_
    rintro rfl
    cases part
  rw [step_word (isNameChar_of_isIdentifierPart part), other]

/-- The two readers go through a name side by side. -/
theorem step_nameParts (read : nameParts? reading (c :: cs) = some parts) :
    ∃ later rest, nameParts? later cs = some rest ∧ ∀ words pending operand word,
      step words ⟨pending, operand, word, within reading, 0⟩ c =
        ⟨pending, operand, c :: word, within later, 0⟩ := by
  cases reading with
  | front =>
    rw [nameParts?] at read
    split at read
    · rename_i tick
      obtain rfl := beq_iff_eq.mp tick
      exact ⟨_, _, read, fun _ _ _ _ => step_word rfl⟩
    · rename_i plain
      split at read
      · rename_i start
        have plain : isPlainName [c] = true := by simp [isPlainName, start]
        have part := isIdentifierPart_of_isPlainName plain c List.mem_cons_self
        exact ⟨_, _, read, fun _ _ _ _ => step_part part⟩
      · cases read
  | plain before =>
    rw [nameParts?] at read
    split at read
    · rename_i dot
      obtain rfl := beq_iff_eq.mp dot
      obtain ⟨rest, read, -⟩ := Option.map_eq_some_iff.mp read
      exact ⟨_, _, read, fun _ _ _ _ => step_word rfl⟩
    · split at read
      · rename_i part
        exact ⟨_, _, read, fun _ _ _ _ => step_part part⟩
      · cases read
  | quoted before =>
    rw [nameParts?] at read
    split at read
    · rename_i tick
      exact ⟨_, _, read, by simp [step, within, tick, bne]⟩
    · rename_i other
      exact ⟨_, _, read, by simp [step, within, other, bne]⟩
  | behindTick before =>
    rw [nameParts?] at read
    split at read
    · rename_i tick
      obtain rfl := beq_iff_eq.mp tick
      exact ⟨_, _, read, fun _ _ _ _ => step_word rfl⟩
    · split at read
      · rename_i dot
        obtain rfl := beq_iff_eq.mp dot
        obtain ⟨rest, read, -⟩ := Option.map_eq_some_iff.mp read
        exact ⟨_, _, read, fun _ _ _ _ => step_word rfl⟩
      · cases read

/-- A name is read as one word. -/
theorem run_nameParts (read : nameParts? reading cs = some parts) :
    run words ⟨pending, operand, word, within reading, 0⟩ cs =
      ⟨pending, operand, cs.reverse ++ word, false, 0⟩ := by
  induction cs generalizing reading parts word with
  | nil =>
    cases reading with
    | front | quoted => cases read
    | plain | behindTick => rfl
  | cons c cs ih =>
    obtain ⟨later, rest, read, step⟩ := step_nameParts read
    rw [run_cons, step, ih read, List.reverse_cons, List.append_assoc]
    rfl

theorem run_word (parts : ∀ c ∈ cs, Text.isIdentifierPart c = true) :
    run words ⟨pending, operand, word, false, 0⟩ cs =
      ⟨pending, operand, cs.reverse ++ word, false, 0⟩ := by
  induction cs generalizing word with
  | nil => rfl
  | cons c cs ih =>
    obtain ⟨here, later⟩ := List.forall_mem_cons.mp parts
    rw [run_cons, step_part here, ih later, List.reverse_cons, List.append_assoc]
    rfl

theorem flush_word (nonempty : cs ≠ []) :
    flush ⟨pending, operand, cs.reverse, false, 0⟩ = holding pending (atom cs) := by
  have filled : cs.reverse.isEmpty = false := by simpa using nonempty
  simp [flush, filled, holding, waiting]

theorem atom_name (read : nameParts? .front cs = some parts) : atom cs = .column parts := by
  rw [atom, read]

theorem atom_digits (digits : ∀ c ∈ cs, c.isDigit = true) (nonempty : cs ≠ []) :
    atom cs = .integer (Text.decimalValue cs) := by
  obtain ⟨c, rest, rfl⟩ := List.exists_cons_of_ne_nil nonempty
  have digit := digits c List.mem_cons_self
  have ascii : c.toNat < 128 := by
    rw [Char.isDigit, Bool.and_eq_true, decide_eq_true_iff, decide_eq_true_iff] at digit
    have upper : c.toNat ≤ 57 := digit.2
    omega
  have unnamed : (c == backtick) = false ∧ Text.isIdentifierStart c = false :=
    Text.ascii_induct (motive := fun c => c.isDigit = true →
      (c == backtick) = false ∧ Text.isIdentifierStart c = false) (by decide) ascii digit
  rw [atom, nameParts?, unnamed.1, unnamed.2]
  rfl

/-- The name of a function opens its call. -/
theorem run_call {function : String} (plain : isPlainName function.toList = true) (cs : List Char) :
    run words (waiting pending) (function.toList ++ '(' :: cs) =
      run words (waiting (.call function :: pending)) cs := by
  have filled : function.toList.reverse.isEmpty = false := by
    cases same : function.toList with
    | nil =>
      rw [same] at plain
      cases plain
    | cons => simp
  have call : step words ⟨pending, none, function.toList.reverse, false, 0⟩ '(' =
      waiting (.call function :: pending) := by
    have opens : step words ⟨pending, none, function.toList.reverse, false, 0⟩ '(' =
        opened ⟨pending, none, function.toList.reverse, false, 0⟩ := rfl
    rw [opens, opened, filled, if_neg Bool.false_ne_true, List.reverse_reverse,
      String.ofList_toList]
    rfl
  rw [run_append, waiting, run_word (isIdentifierPart_of_isPlainName plain), run_cons,
    List.append_nil, call]

/-- A clause is passed over. -/
theorem run_passing (cs : List Char) :
    run words (passing cs.length pending x) cs = holding pending x := by
  induction cs with
  | nil => rfl
  | cons c cs ih => exact ih

theorem flush_flush (s : State) : s.flush.flush = s.flush := by
  cases empty : s.word.isEmpty <;> simp [flush, empty]

theorem operated_of_settled (held : s.settled op.level = holding pending x) :
    s.operated op = waiting (.left x op :: pending) := by
  simp only [operated, held]
  rfl

/-! ### What the reader makes of a text -/

variable {clause : Option String}

/-- From where nothing waits at its level, a text leads to its tree, up to what waits at its level
at the end. -/
theorem settled_run (reads : Reads clause level cs x) (free : Free level pending) :
    (run (clause.getD "") (waiting pending) cs).flush.settled level =
      (holding pending x).settled level := by
  induction reads generalizing pending with
  | column name =>
    rename_i cs parts
    have nonempty : cs ≠ [] := by
      rintro rfl
      cases name
    have read : run (clause.getD "") (waiting pending) cs =
        ⟨pending, none, cs.reverse ++ [], false, 0⟩ := run_nameParts name
    rw [read, List.append_nil, flush_word nonempty, atom_name name]
  | integer digits nonempty =>
    rename_i cs
    have parts : ∀ c ∈ cs, Text.isIdentifierPart c = true := fun c member => by
      simp [Text.isIdentifierPart, Char.isAlphanum, digits c member]
    rw [waiting, run_word parts, List.append_nil, flush_word nonempty, atom_digits digits nonempty]
  | brackets inner ih =>
    have free : Free .sum (.bracket :: pending) := trivial
    have held := ih free
    have start : step (clause.getD "") (waiting pending) '(' = waiting (.bracket :: pending) :=
      rfl
    rw [run_cons, start, run_append, run_cons, step_closing (plain_of_settled held), held]
    rfl
  | signed weak operand ih =>
    rename_i sign cs x
    have free : Free .factor (.sign sign :: pending) := rfl
    have held := ih free
    rw [run_cons, step_operator (plain_waiting pending)]
    exact held
  | window given plain operand ih =>
    rename_i words function cs x
    subst given
    have free : Free .sum (.call function :: pending) := trivial
    have held := ih free
    have closing : ((holding (.call function :: pending) x).settled .sum).closed words =
        passing (' ' :: words.toList).length pending (.window function x words) := rfl
    rw [run_call plain, run_append, run_cons, step_closing (plain_of_settled held), held,
      Option.getD_some, closing, run_passing]
    rfl
  | shifted given plain operand offset ih later =>
    rename_i words function cs x ds k
    subst given
    have free : Free .sum (.call function :: pending) := trivial
    have held := ih free
    have free : Free .sum (.offset function x :: pending) := trivial
    have shifted := later free
    have comma : ((holding (.call function :: pending) x).settled .sum).next =
        waiting (.offset function x :: pending) := rfl
    have closing : ((holding (.offset function x :: pending) k).settled .sum).closed words =
        passing (' ' :: words.toList).length pending (.shifted function x k words) := rfl
    rw [run_call plain, run_append, run_cons, step_comma (plain_of_settled held), held, comma,
      run_append, run_cons, step_closing (plain_of_settled shifted), shifted, Option.getD_some,
      closing, run_passing]
    rfl
  | spaceBefore blank factor ih =>
    rw [run_cons, step_space (plain_waiting pending) blank]
    exact ih free
  | spaceBehind factor blank ih =>
    have held := ih free
    rw [run_append, run_cons, step_space (plain_of_settled held) blank, run, List.foldl_nil,
      flush_flush]
    exact held
  | tight inner ih =>
    rename_i level cs x
    rw [← settled_settled level.rank_tighter, ih free.tighter, settled_settled level.rank_tighter]
  | operation same left right ih later =>
    rename_i level op cs x ds y
    subst same
    -- Nothing of what waits takes the left operand, which then waits itself for the right one.
    have loose : op.level ≠ .factor := by cases op <;> decide
    have tighter : op.level.tighter.rank < op.level.rank := by cases op <;> decide
    have waits : Free op.level.tighter (.left x op :: pending) := tighter
    have held := (ih free).trans (free.settled loose)
    have right := later waits
    rw [run_append, run_cons, step_operator (plain_of_settled (ih free)), operated_of_settled held,
      ← settled_settled op.level.rank_tighter, right, settled_settled op.level.rank_tighter,
      settled_left (Nat.le_refl _)]

end Arithmetic

namespace Reads

variable {clause : Option String} {level : Precedence} {cs ds : List Char} {x y : Arithmetic}
  {c : Char} {op : Operator}

/-- A text reads as one tree at most. -/
theorem unique (reads : Reads clause .sum cs x) (again : Reads clause .sum cs y) : x = y := by
  have free : Arithmetic.Free .sum [] := trivial
  have held := (Arithmetic.settled_run reads free).symm.trans (Arithmetic.settled_run again free)
  exact Option.some.inj (congrArg Arithmetic.State.operand held)

/-! ### Texts put together -/

theorem of_factor (factor : Reads clause .factor cs x) : Reads clause level cs x := by
  cases level with
  | factor => exact factor
  | product => exact .tight factor
  | sum => exact .tight (.tight factor)

/-- What has no windows reads the same where there may be some. -/
theorem windowless (reads : Reads none level cs x) : Reads clause level cs x := by
  induction reads with
  | column name => exact .column name
  | integer digits nonempty => exact .integer digits nonempty
  | brackets inner ih => exact .brackets ih
  | signed weak operand ih => exact .signed weak ih
  | window given | shifted given => cases given
  | spaceBefore blank factor ih => exact .spaceBefore blank ih
  | spaceBehind factor blank ih => exact .spaceBehind ih blank
  | tight inner ih => exact .tight ih
  | operation same left right ih later => exact .operation same ih later

theorem spaced (reads : Reads clause level cs x) (blank : Text.isSpace c = true) :
    Reads clause level (cs ++ [c]) x := by
  induction reads with
  | tight inner ih => exact .tight ih
  | operation same left right ih later =>
    rw [List.append_assoc, List.cons_append]
    exact .operation same left later
  | column name => exact .spaceBehind (.column name) blank
  | integer digits nonempty => exact .spaceBehind (.integer digits nonempty) blank
  | brackets inner => exact .spaceBehind (.brackets inner) blank
  | signed weak operand => exact .spaceBehind (.signed weak operand) blank
  | window given plain operand => exact .spaceBehind (.window given plain operand) blank
  | shifted given plain operand offset =>
    exact .spaceBehind (.shifted given plain operand offset) blank
  | spaceBefore before factor => exact .spaceBehind (.spaceBefore before factor) blank
  | spaceBehind factor behind => exact .spaceBehind (.spaceBehind factor behind) blank

/-- An operation with spaces around its mark. -/
theorem apply (op : Operator) (left : Reads clause op.level cs x) (right : Reads clause .factor ds y) :
    Reads clause op.level (cs ++ ' ' :: mark op :: ' ' :: ds) (.operation x op y) := by
  have first : Reads clause op.level (cs ++ [' ']) x := left.spaced (by decide)
  have second : Reads clause op.level.tighter (' ' :: ds) y :=
    of_factor (.spaceBefore (by decide) right)
  have whole := Reads.operation rfl first second
  rwa [List.append_assoc, List.singleton_append] at whole

theorem number (n : Nat) : Reads clause .factor (toString n).toList (.integer n) := by
  have digits : ∀ c ∈ (toString n).toList, c.isDigit = true := fun c => Text.isDigit_of_mem_toString
  have nonempty : (toString n).toList ≠ [] := Text.toList_toString n ▸ Nat.toDigits_ne_nil
  have value : Text.decimalValue (toString n).toList = n := by
    rw [Text.toList_toString, Text.decimalValue_toDigits]
  have reads : Reads clause .factor _ _ := .integer digits nonempty
  rwa [value] at reads

/-- A sum is a product, or splits at its last operator into a sum and a product. -/
theorem sum_cases (reads : Reads clause .sum cs x) : Reads clause .product cs x ∨
    ∃ op front back y z, op.level = .sum ∧ cs = front ++ mark op :: back ∧
      x = .operation y op z ∧ Reads clause .sum front y ∧ Reads clause .product back z := by
  cases reads with
  | tight product => exact .inl product
  | operation same left right => exact .inr ⟨_, _, _, _, _, same, rfl, rfl, left, right⟩

end Reads

end LakeSchema.Sql
