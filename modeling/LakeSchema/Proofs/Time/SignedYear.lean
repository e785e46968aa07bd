import LakeSchema.Proofs.Text.Cutting
import LakeSchema.Proofs.Text.TopLevel

/-!
# Years with a sign

The canonical text of a timestamp before the year 0 or after 9999 begins with a sign and ends in `Z`. The
strict form and mail dates have no signs, and none of the naive layouts reads a `Z`
(`naive?_concat`). So no form reads such a text, and the timestamps that are read back are those with
years of four digits (`Timestamp.read?_text_iff`).
-/

namespace LakeSchema

namespace Time

variable {α : Type} {cs rest : List Char} {c : Char} {least most n : Nat} {parts parts' : Parts}

/-! ### Readers that do not read `Z` -/

/-- What is read is a part of the text in front of the rest, without a `Z`. -/
def Spared (cs rest : List Char) : Prop :=
  ∃ used, cs = used ++ rest ∧ 'Z' ∉ used

theorem Spared.refl (cs : List Char) : Spared cs cs :=
  ⟨[], rfl, List.not_mem_nil⟩

theorem Spared.trans {middle : List Char} (first : Spared cs middle) (second : Spared middle rest) :
    Spared cs rest := by
  obtain ⟨front, rfl, free⟩ := first
  obtain ⟨back, rfl, free'⟩ := second
  exact ⟨front ++ back, (List.append_assoc front back rest).symm, fun member =>
    (List.mem_append.mp member).elim free free'⟩

theorem Spared.cons (other : c ≠ 'Z') (spared : Spared cs rest) : Spared (c :: cs) rest :=
  Spared.trans ⟨[c], rfl, fun member => other (List.mem_singleton.mp member).symm⟩ spared

theorem spared_dropWhile {p : Char → Bool} (stops : p 'Z' = false) (cs : List Char) :
    Spared cs (cs.dropWhile p) := by
  refine ⟨cs.takeWhile p, List.takeWhile_append_dropWhile.symm, fun member => ?_⟩
  rw [List.mem_takeWhile_imp member] at stops
  cases stops

theorem spared_trimStart (cs : List Char) : Spared cs (Text.trimStart cs) :=
  spared_dropWhile (by decide) cs

theorem spared_number? (read : number? least most cs = some (n, rest)) : Spared cs rest := by
  unfold number? at read
  dsimp only at read
  split at read
  · contradiction
  · obtain ⟨-, rfl⟩ := Prod.mk.inj (Option.some.inj read)
    have digits : (cs.take most).takeWhile Char.isDigit <+: cs :=
      (List.takeWhile_prefix Char.isDigit).trans (List.take_prefix most cs)
    refine ⟨_, (List.prefix_iff_eq_append.mp digits).symm, fun member => ?_⟩
    exact Bool.false_ne_true (List.mem_takeWhile_imp member)

theorem spared_map {β : Type} {reader : Option (α × List Char)} {f : α × List Char → β × List Char} {y : β}
    (read : reader.map f = some (y, rest)) (kept : ∀ read, (f read).2 = read.2)
    (each : ∀ x rest, reader = some (x, rest) → Spared cs rest) : Spared cs rest := by
  obtain ⟨⟨x, behind⟩, some, same⟩ := Option.map_eq_some_iff.mp read
  have last : behind = rest := (kept (x, behind)).symm.trans (congrArg Prod.snd same)
  exact last ▸ each x behind some

theorem spared_year? {year : Int} (read : year? cs = some (year, rest)) : Spared cs rest := by
  unfold year? at read
  split at read
  · exact .cons (by decide) (spared_map read (fun _ => rfl) (fun _ _ => spared_number?))
  · exact .cons (by decide) (spared_map read (fun _ => rfl) (fun _ _ => spared_number?))
  · exact spared_map read (fun _ => rfl) (fun _ _ => spared_number?)

theorem spared_fraction? (read : fraction? cs = some (n, rest)) : Spared cs rest := by
  obtain ⟨_, number, same⟩ := Option.map_eq_some_iff.mp read
  obtain ⟨-, rfl⟩ := Prod.mk.inj same
  exact (spared_number? number).trans (spared_dropWhile (by decide) _)

theorem spared_twoDigits? (read : twoDigits? least most cs = some (n, rest)) : Spared cs rest :=
  (spared_trimStart cs).trans (spared_number? (Option.filter_eq_some_iff.mp read).1)

theorem spared_name? {names : List String} (free : ∀ name ∈ names, 'z' ∉ name.toList)
    (read : name? names cs = some (n, rest)) : Spared cs rest := by
  obtain ⟨place, found, same⟩ := Option.map_eq_some_iff.mp read
  obtain ⟨-, rfl⟩ := Prod.mk.inj same
  refine ⟨cs.take 3, (List.take_append_drop 3 cs).symm, fun member => ?_⟩
  obtain ⟨within, matched, -⟩ := List.findIdx?_eq_some_iff_getElem.mp found
  have name : Text.asciiLowered (String.ofList (cs.take 3)) = names[place] := by simpa using matched
  refine free _ (List.getElem_mem within) ?_
  rw [← name, Text.asciiLowered, String.toList_ofList, String.toList_ofList]
  exact List.mem_map.mpr ⟨'Z', member, rfl⟩

/-- A piece of a layout reads no `Z` unless it is a literal with one. -/
theorem spared_piece {piece : Piece} (plain : ∀ text, piece = .literal text → 'Z' ∉ text.toList)
    (read : piece.read? parts cs = some (parts', rest)) : Spared cs rest := by
  cases piece with
  | year =>
    exact spared_map read (fun _ => rfl) fun _ _ year => (spared_trimStart cs).trans (spared_year? year)
  | month | day | hour | minute | second =>
    exact spared_map read (fun _ => rfl) fun _ _ => spared_twoDigits?
  | fraction =>
    unfold Piece.read? at read
    dsimp only at read
    split at read
    · exact .cons (by decide) (spared_map read (fun _ => rfl) fun _ _ => spared_fraction?)
    · obtain ⟨-, rfl⟩ := Prod.mk.inj (Option.some.inj read)
      exact .refl cs
  | monthName | weekdayName =>
    exact spared_map read (fun _ => rfl) fun _ _ => spared_name? (by decide)
  | spaces =>
    obtain ⟨-, rfl⟩ := Prod.mk.inj (Option.some.inj read)
    exact spared_trimStart cs
  | literal text =>
    obtain ⟨_, after, same⟩ := Option.map_eq_some_iff.mp read
    obtain ⟨-, rfl⟩ := Prod.mk.inj same
    exact ⟨text.toList, Text.after?_eq_some_iff.mp after, plain text rfl⟩

theorem spared_layout {layout : Layout} (plain : ∀ text, .literal text ∈ layout → 'Z' ∉ text.toList)
    (read : layout.read? parts cs = some (parts', rest)) : Spared cs rest := by
  induction layout generalizing parts cs with
  | nil =>
    obtain ⟨-, rfl⟩ := Prod.mk.inj (Option.some.inj read)
    exact .refl cs
  | cons piece layout ih =>
    obtain ⟨⟨middle, behind⟩, first, more⟩ := Option.bind_eq_some_iff.mp read
    have spared := spared_piece (fun text same => plain text (same ▸ List.mem_cons_self)) first
    exact spared.trans (ih (fun text member => plain text (List.mem_cons_of_mem piece member)) more)

/-- A layout without `Z` does not read a text to its end that ends so. -/
theorem naive?_concat {layout : Layout} (plain : ∀ text, .literal text ∈ layout → 'Z' ∉ text.toList)
    (front : List Char) : naive? (front ++ ['Z']) layout = none := by
  rw [naive?, Option.bind_eq_none_iff]
  rintro ⟨parts, rest⟩ read
  obtain ⟨used, whole, free⟩ := spared_layout plain read
  cases rest with
  | nil =>
    rw [List.append_nil] at whole
    exact absurd (whole ▸ List.mem_append_right front List.mem_cons_self) free
  | cons c rest => rfl

/-! ### Readers that read no sign -/

theorem number?_cons (other : c.isDigit = false) (positive : 0 < least) (cs : List Char) :
    number? least most (c :: cs) = none := by
  have empty : ((c :: cs).take most).takeWhile Char.isDigit = [] := by
    cases most with
    | zero => rfl
    | succ most => rw [List.take_succ_cons, List.takeWhile_cons_of_neg (by simp [other])]
  rw [number?, empty, if_pos (by simpa using positive)]

theorem internet?_cons (other : c.isDigit = false) (cs : List Char) : internet? (c :: cs) = none := by
  have year : exactly? 4 0 9999 (c :: cs) = none := by
    rw [exactly?, number?_cons other (by decide), Option.filter_none]
  rw [internet?, year]
  rfl

theorem name?_cons {names : List String} (other : ∀ name ∈ names, name.toList.head? ≠ some c.toLower)
    (cs : List Char) : name? names (c :: cs) = none := by
  rw [name?, Option.map_eq_none_iff, List.findIdx?_eq_none_iff]
  intro name member
  refine Bool.eq_false_iff.mpr fun same => other name member ?_
  rw [← beq_iff_eq.mp same, Text.asciiLowered, String.toList_ofList, String.toList_ofList]
  rfl

theorem mail?_cons (sign : c = '+' ∨ c = '-') (cs : List Char) : mail? (c :: cs) = none := by
  have solid : Text.trimStart (c :: cs) = c :: cs :=
    trimStart_cons (by rcases sign with rfl | rfl <;> decide) cs
  have name : weekdayName? (c :: cs) = none :=
    name?_cons (by rcases sign with rfl | rfl <;> decide) cs
  have digits : number? 1 2 (c :: cs) = none :=
    number?_cons (by rcases sign with rfl | rfl <;> decide) (by decide) cs
  simp only [mail?, solid, mailWeekday?, name, Option.bind_eq_bind, Option.bind_some, digits,
    Option.filter_none, Option.bind_none]

end Time

namespace Timestamp

variable {t : Timestamp}

theorem exists_text_of_signed (signed : ¬(0 ≤ t.date.year ∧ t.date.year ≤ 9999)) :
    ∃ c front, t.text.toList = c :: (front ++ ['Z']) ∧ (c = '+' ∨ c = '-') := by
  have mark : (if t.date.year < 0 then "-" else "+").toList = [if t.date.year < 0 then '-' else '+'] := by
    split <;> rfl
  refine ⟨if t.date.year < 0 then '-' else '+', (padded 4 t.date.year.natAbs ++ "-" ++
    padded 2 t.date.month ++ "-" ++ padded 2 t.date.day ++ "T" ++ padded 2 t.hour ++ ":" ++
    padded 2 t.minute ++ ":" ++ padded 2 t.second ++ fractionText t.nano).toList, ?_, ?_⟩
  · have zone : "Z".toList = ['Z'] := rfl
    simp only [text, yearText, if_neg signed, String.toList_append, mark, zone, List.append_assoc,
      List.cons_append, List.nil_append]
  · split
    · exact .inr rfl
    · exact .inl rfl

/-- No form reads a year with a sign in front of a time in universal time. -/
theorem read?_text_of_signed (signed : ¬(0 ≤ t.date.year ∧ t.date.year ≤ 9999)) :
    Timestamp.read? t.text = none := by
  obtain ⟨c, front, text, sign⟩ := exists_text_of_signed signed
  have digit : c.isDigit = false := by rcases sign with rfl | rfl <;> decide
  have trimmed : Text.trim (c :: (front ++ ['Z'])) = c :: (front ++ ['Z']) := by
    refine Text.trim_eq_self_iff.mpr ⟨fun d first => ?_, fun d last => ?_⟩
    · obtain rfl := Option.some.inj first
      rcases sign with rfl | rfl <;> decide
    · rw [← List.cons_append, List.getLast?_concat] at last
      obtain rfl := Option.some.inj last
      decide
  have naive : Time.naiveLayouts.findSome? (Time.naive? (c :: (front ++ ['Z']))) = none := by
    have plain : ∀ layout ∈ Time.naiveLayouts, ∀ text, .literal text ∈ layout → 'Z' ∉ text.toList := by
      simp [Time.naiveLayouts]
    exact List.findSome?_eq_none_iff.mpr fun layout listed =>
      Time.naive?_concat (plain layout listed) (c :: front)
  have date : Time.naive? (c :: (front ++ ['Z'])) [.year, .literal "-", .month, .literal "-", .day] = none :=
    Time.naive?_concat (by simp) (c :: front)
  rw [Timestamp.read?, text, trimmed, Time.internet?_cons digit, naive, Time.mail?_cons sign, date]
  rfl

/-- A canonical text is read back exactly if its year has four digits and no sign. -/
theorem read?_text_iff : Timestamp.read? t.text = some t ↔ 0 ≤ t.date.year ∧ t.date.year ≤ 9999 := by
  refine ⟨fun read => ?_, Timestamp.read?_text⟩
  by_contra signed
  rw [read?_text_of_signed signed] at read
  cases read

end Timestamp
end LakeSchema
