import LakeSchema.Time.Reader
import Mathlib.Algebra.Group.Nat.Defs

/-!
# Timestamps are read as they are written

The canonical text of a timestamp is of fixed width but for its fraction, as long as the year has
four digits. So it is read by the strict form as well as by the relaxed one, and both times as the
timestamp that it was written for.
-/

namespace LakeSchema

namespace Text

variable {cs rest : List Char} {c : Char}

/-! ### Numbers of fixed width -/

theorem decimalValue_append_singleton (cs : List Char) (c : Char) :
    decimalValue (cs ++ [c]) = 10 * decimalValue cs + (c.toNat - '0'.toNat) := by
  rw [decimalValue, decimalValue, List.foldl_append]
  rfl

theorem digitChar_value : ∀ d < 10, (Nat.digitChar d).toNat - '0'.toNat = d := by
  decide

theorem decimalValue_toDigits (n : Nat) : decimalValue (Nat.toDigits 10 n) = n := by
  rw [Nat.toDigits_eq_if (by decide)]
  split
  · rename_i small
    have single : decimalValue [Nat.digitChar n] = (Nat.digitChar n).toNat - '0'.toNat :=
      (decimalValue_append_singleton [] _).trans (Nat.zero_add _)
    rw [single, digitChar_value n small]
  · rw [decimalValue_append_singleton, decimalValue_toDigits (n / 10),
      digitChar_value _ (Nat.mod_lt n (by decide))]
    omega
termination_by n
decreasing_by omega

theorem decimalValue_replicate_append (zeros : Nat) (cs : List Char) :
    decimalValue (List.replicate zeros '0' ++ cs) = decimalValue cs := by
  induction zeros with
  | zero => rfl
  | succ zeros ih => exact ih

theorem length_toDigits_le {n width : Nat} (positive : 0 < width) (fits : n < 10 ^ width) :
    (Nat.toDigits 10 n).length ≤ width := by
  induction width generalizing n with
  | zero => contradiction
  | succ width ih =>
    rw [Nat.toDigits_eq_if (by decide)]
    split
    · exact positive
    · rename_i large
      rw [List.length_append, List.length_singleton]
      refine Nat.succ_le_succ (ih ?_ ?_)
      · rcases width with _ | width
        · rw [Nat.pow_one] at fits
          omega
        · exact Nat.succ_pos width
      · rw [Nat.pow_succ] at fits
        omega

end Text

namespace Time

variable {cs rest : List Char} {least most width n : Nat}

/-- Digits of a number with zeros in front. -/
structure Fixed (width n : Nat) (digits : List Char) : Prop where
  length : digits.length = width
  digit : ∀ c ∈ digits, c.isDigit = true
  value : Text.decimalValue digits = n

theorem fixed_padded (positive : 0 < width) (fits : n < 10 ^ width) :
    Fixed width n (Timestamp.padded width n).toList := by
  have digits : (Timestamp.padded width n).toList =
      List.replicate (width - (Nat.toDigits 10 n).length) '0' ++ Nat.toDigits 10 n := by
    have written : toString n = String.ofList (Nat.toDigits 10 n) := rfl
    rw [Timestamp.padded, written, String.toList_append, String.toList_ofList, String.toList_ofList,
      String.length_ofList]
  have short := Text.length_toDigits_le positive fits
  rw [digits]
  refine ⟨?_, fun c member => ?_, ?_⟩
  · rw [List.length_append, List.length_replicate]
    omega
  · rcases List.mem_append.mp member with zero | digit
    · rw [List.eq_of_mem_replicate zero]
      rfl
    · exact Nat.isDigit_of_mem_toDigits (by decide) (by decide) digit
  · rw [Text.decimalValue_replicate_append, Text.decimalValue_toDigits]

/-- As many digits are read as there are, up to the limit. -/
theorem Fixed.number? (fixed : Fixed width n cs) (enough : least ≤ width) (within : width ≤ most)
    (ends : width = most ∨ ∀ c ∈ rest.head?, c.isDigit = false) :
    Time.number? least most (cs ++ rest) = some (n, rest) := by
  have taken : ((cs ++ rest).take most).takeWhile Char.isDigit = cs := by
    rw [List.take_append, List.take_of_length_le (fixed.length ▸ within),
      List.takeWhile_append_of_pos fixed.digit]
    rcases ends with full | stops
    · rw [fixed.length, full, Nat.sub_self, List.take_zero, List.takeWhile_nil, List.append_nil]
    · rcases rest with _ | ⟨c, rest⟩
      · rw [List.take_nil, List.takeWhile_nil, List.append_nil]
      · have stop : c.isDigit = false := stops c rfl
        rcases most - cs.length with _ | more
        · simp
        · rw [List.take_succ_cons, List.takeWhile_cons_of_neg (by simp [stop]), List.append_nil]
  rw [Time.number?, taken, if_neg (by rw [fixed.length]; omega), fixed.value, List.drop_left]

theorem isSpace_of_isDigit {c : Char} (digit : c.isDigit = true) : Text.isSpace c = false := by
  have range : 48 ≤ c.toNat ∧ c.toNat ≤ 57 := by
    rw [Char.isDigit, Bool.and_eq_true, decide_eq_true_iff, decide_eq_true_iff] at digit
    exact digit
  simp only [Text.isSpace, Bool.or_eq_false_iff, Bool.and_eq_false_iff, decide_eq_false_iff_not,
    beq_eq_false_iff_ne]
  omega

theorem Fixed.cons (fixed : Fixed (width + 1) n cs) : ∃ c more, cs = c :: more ∧ c.isDigit = true := by
  rcases cs with _ | ⟨c, more⟩
  · exact absurd fixed.length (by simp)
  · exact ⟨c, more, rfl, fixed.digit c List.mem_cons_self⟩

theorem trimStart_cons {c : Char} (solid : Text.isSpace c = false) (rest : List Char) :
    Text.trimStart (c :: rest) = c :: rest :=
  List.dropWhile_cons_of_neg (by simp [solid])

/-- Nothing is trimmed in front of a digit. -/
theorem Fixed.trimStart (fixed : Fixed (width + 1) n cs) :
    Text.trimStart (cs ++ rest) = cs ++ rest := by
  obtain ⟨c, more, rfl, digit⟩ := fixed.cons
  exact trimStart_cons (isSpace_of_isDigit digit) (more ++ rest)

theorem exactly?_padded {low high : Nat} (positive : 0 < width) (fits : n < 10 ^ width)
    (bounds : low ≤ n ∧ n ≤ high) (rest : List Char) :
    exactly? width low high ((Timestamp.padded width n).toList ++ rest) = some (n, rest) := by
  rw [exactly?, (fixed_padded positive fits).number? (Nat.le_refl width) (Nat.le_refl width) (.inl rfl)]
  simp [bounds]

theorem twoDigits?_padded {low high : Nat} (fits : n < 100) (bounds : low ≤ n ∧ n ≤ high)
    (rest : List Char) :
    twoDigits? low high ((Timestamp.padded 2 n).toList ++ rest) = some (n, rest) := by
  have fixed : Fixed 2 n (Timestamp.padded 2 n).toList := fixed_padded (by decide) fits
  rw [twoDigits?, fixed.trimStart, fixed.number? (by decide) (by decide) (.inl rfl)]
  simp [bounds]

theorem year?_padded (fits : n < 10000) (rest : List Char) :
    year? ((Timestamp.padded 4 n).toList ++ rest) = some ((n : Int), rest) := by
  have fixed : Fixed 4 n (Timestamp.padded 4 n).toList := fixed_padded (by decide) fits
  have read : number? 1 4 ((Timestamp.padded 4 n).toList ++ rest) = some (n, rest) :=
    fixed.number? (by decide) (Nat.le_refl 4) (.inl rfl)
  obtain ⟨c, more, digits, digit⟩ := fixed.cons
  rw [digits] at read ⊢
  unfold year?
  split
  · rename_i sign
    rw [(List.cons.inj sign).1] at digit
    exact absurd digit (by decide)
  · rename_i sign
    rw [(List.cons.inj sign).1] at digit
    exact absurd digit (by decide)
  · rw [read]
    rfl

/-! ### Fractions and offsets -/

theorem fraction?_padded {scale : Nat} (fits : n < 10 ^ width) (positive : 0 < width)
    (within : width ≤ 9) (exact : n * 10 ^ (9 - width) = scale) :
    fraction? ((Timestamp.padded width n).toList ++ ['Z']) = some (scale, ['Z']) := by
  have fixed := fixed_padded positive fits
  have read : number? 1 9 ((Timestamp.padded width n).toList ++ ['Z']) = some (n, ['Z']) :=
    fixed.number? positive within (.inr (by simp [Char.isDigit]))
  have used : ((Timestamp.padded width n).toList ++ ['Z']).length - 1 = width := by
    rw [List.length_append, fixed.length]
    rfl
  rw [fraction?, read]
  simp only [Option.map_some, List.length_singleton, used]
  exact congrArg some (Prod.ext exact rfl)

theorem fraction_read? {parts : Parts} {nano : Nat} (start : parts.nano = 0)
    (bounded : nano < 1000000000) :
    Piece.fraction.read? parts ((Timestamp.fractionText nano).toList ++ ['Z']) =
      some ({ parts with nano := nano }, ['Z']) := by
  have written : ∀ {width n : Nat}, 0 < width → width ≤ 9 → n < 10 ^ width →
      n * 10 ^ (9 - width) = nano →
      Piece.fraction.read? parts (("." ++ Timestamp.padded width n).toList ++ ['Z']) =
        some ({ parts with nano := nano }, ['Z']) := by
    intro width n positive within fits exact
    have read := fraction?_padded fits positive within exact
    have dot : ".".toList = ['.'] := rfl
    rw [String.toList_append, dot]
    simp only [Piece.read?, List.cons_append, List.nil_append, read, Option.map_some]
  unfold Timestamp.fractionText
  split
  · rename_i zero
    have none : nano = 0 := by simpa using zero
    show some (parts, ['Z']) = _
    rw [none, ← start]
  · split
    · rename_i exact
      have exact : nano % 1000000 = 0 := by simpa using exact
      exact written (by decide) (by decide) (by omega) (by omega)
    · split
      · rename_i exact
        have exact : nano % 1000 = 0 := by simpa using exact
        exact written (by decide) (by decide) (by omega) (by omega)
      · exact written (by decide) (by decide) bounded (by omega)

/-! ### Moments -/

theorem minutesBefore?_zero (t : Timestamp) : t.minutesBefore? 0 = some t := by
  have hour := t.hour.isLt
  have minute := t.minute.isLt
  have total : ((t.hour.val * 60 + t.minute.val : Nat) : Int) - 0 =
      (t.hour.val * 60 + t.minute.val : Nat) := Int.sub_zero _
  have clock : ((t.hour.val * 60 + t.minute.val : Nat) % 1440 : Int).toNat =
      t.hour.val * 60 + t.minute.val := by omega
  have hours : (t.hour.val * 60 + t.minute.val) / 60 = t.hour.val := by omega
  have minutes : (t.hour.val * 60 + t.minute.val) % 60 = t.minute.val := by omega
  simp only [Timestamp.minutesBefore?, total, clock, hours, minutes]
  rw [if_neg (by omega), if_neg (by omega), Option.map_some, Timestamp.ofClock]
  simp

theorem of?_self (d : Date) : Date.of? d.year d.month d.day = some d := by
  rw [Date.of?, dif_pos d.year_range, dif_pos d.month_range, dif_pos d.day_range]

theorem timestamp?_parts (t : Timestamp) :
    ({ year := t.date.year, month := t.date.month, day := t.date.day, hour := t.hour,
       minute := t.minute, second := t.second, nano := t.nano } : Parts).timestamp? 0 = some t := by
  have clock : Timestamp.ofClock t.date t.hour t.minute t.second t.nano = t := by
    simp [Timestamp.ofClock]
  simp only [Parts.timestamp?, of?_self, Option.bind_eq_bind, Option.bind_some, clock]
  exact minutesBefore?_zero t

/-! ### Whole texts -/

/-- The number of each part of a canonical text, with what follows it. -/
theorem text_toList (t : Timestamp) (years : 0 ≤ t.date.year ∧ t.date.year ≤ 9999) :
    t.text.toList = (Timestamp.padded 4 t.date.year.toNat).toList ++
      '-' :: ((Timestamp.padded 2 t.date.month).toList ++
      '-' :: ((Timestamp.padded 2 t.date.day).toList ++
      'T' :: ((Timestamp.padded 2 t.hour).toList ++
      ':' :: ((Timestamp.padded 2 t.minute).toList ++
      ':' :: ((Timestamp.padded 2 t.second).toList ++
      ((Timestamp.fractionText t.nano).toList ++ ['Z'])))))) := by
  simp [Timestamp.text, Timestamp.yearText, years]

theorem day_le (d : Date) : d.day ≤ 31 := by
  have bound : daysInMonth d.year d.month ≤ 31 := by
    unfold daysInMonth
    repeat' split
    all_goals decide
  exact Nat.le_trans d.day_range.2 bound

theorem after?_cons_self (c : Char) (rest : List Char) : Text.after? [c] (c :: rest) = some rest := by
  simp [Text.after?]

/-- The strict form reads a canonical text. -/
theorem internet?_text {t : Timestamp} (years : 0 ≤ t.date.year ∧ t.date.year ≤ 9999) :
    internet? t.text.toList = some t := by
  obtain ⟨lowest, highest⟩ := years
  have months := t.date.month_range
  have days := t.date.day_range.1
  have latest := day_le t.date
  have year (rest) : exactly? 4 0 9999 ((Timestamp.padded 4 t.date.year.toNat).toList ++ rest) =
      some (t.date.year.toNat, rest) := exactly?_padded (by decide) (by omega) (by omega) rest
  have month (rest) : exactly? 2 1 12 ((Timestamp.padded 2 t.date.month).toList ++ rest) =
      some (t.date.month, rest) := exactly?_padded (by decide) (by omega) months rest
  have day (rest) : exactly? 2 1 31 ((Timestamp.padded 2 t.date.day).toList ++ rest) =
      some (t.date.day, rest) := exactly?_padded (by decide) (by omega) (by omega) rest
  have hour (rest) : exactly? 2 0 23 ((Timestamp.padded 2 t.hour).toList ++ rest) =
      some (t.hour.val, rest) := exactly?_padded (by decide) (by omega) (by omega) rest
  have minute (rest) : exactly? 2 0 59 ((Timestamp.padded 2 t.minute).toList ++ rest) =
      some (t.minute.val, rest) := exactly?_padded (by decide) (by omega) (by omega) rest
  have second (rest) : exactly? 2 0 60 ((Timestamp.padded 2 t.second).toList ++ rest) =
      some (t.second.val, rest) := exactly?_padded (by decide) (by omega) (by omega) rest
  have yearValue : ((t.date.year.toNat : Nat) : Int) = t.date.year := Int.toNat_of_nonneg lowest
  have fraction (parts : Parts) (start : parts.nano = 0) := fraction_read? start t.nano.isLt
  rw [text_toList t ⟨lowest, highest⟩]
  simp only [internet?, Option.bind_eq_bind, year, month, day, hour, minute, second, Option.bind_some,
    after?_cons_self, dateSeparator?, fraction, offset?, yearValue, timestamp?_parts]
  rfl

theorem read?_spaces {c : Char} (solid : Text.isSpace c = false) (parts : Parts) (rest : List Char) :
    Piece.spaces.read? parts (c :: rest) = some (parts, c :: rest) := by
  rw [Piece.read?, trimStart_cons solid]

theorem read?_literal {text : String} {c : Char} (single : text.toList = [c]) (parts : Parts)
    (rest : List Char) : (Piece.literal text).read? parts (c :: rest) = some (parts, rest) := by
  rw [Piece.read?, single, after?_cons_self, Option.map_some]

theorem dateLayout_read? {d : Date} (years : 0 ≤ d.year ∧ d.year ≤ 9999) (rest : List Char) :
    dateLayout.read? {} ((Timestamp.padded 4 d.year.toNat).toList ++
      '-' :: ((Timestamp.padded 2 d.month).toList ++
      '-' :: ((Timestamp.padded 2 d.day).toList ++ rest))) =
        some ({ year := d.year, month := d.month, day := d.day }, rest) := by
  obtain ⟨lowest, highest⟩ := years
  have months := d.month_range
  have days := d.day_range.1
  have latest := day_le d
  have start (rest) : Text.trimStart ((Timestamp.padded 4 d.year.toNat).toList ++ rest) =
      (Timestamp.padded 4 d.year.toNat).toList ++ rest :=
    (fixed_padded (by decide) (by omega)).trimStart
  have year (parts : Parts) (rest) : Piece.year.read? parts
      ((Timestamp.padded 4 d.year.toNat).toList ++ rest) =
        some ({ parts with year := d.year }, rest) := by
    rw [Piece.read?, start, year?_padded (by omega) rest, Int.toNat_of_nonneg lowest,
      Option.map_some]
  have month (parts : Parts) (rest) : Piece.month.read? parts
      ((Timestamp.padded 2 d.month).toList ++ rest) =
        some ({ parts with month := d.month }, rest) := by
    rw [Piece.read?, twoDigits?_padded (by omega) months rest, Option.map_some]
  have day (parts : Parts) (rest) : Piece.day.read? parts
      ((Timestamp.padded 2 d.day).toList ++ rest) = some ({ parts with day := d.day }, rest) := by
    rw [Piece.read?, twoDigits?_padded (by omega) ⟨days, latest⟩ rest, Option.map_some]
  have dash (parts : Parts) (rest) : Piece.spaces.read? parts ('-' :: rest) =
      some (parts, '-' :: rest) := read?_spaces (by decide) parts rest
  have past (parts : Parts) (rest) : (Piece.literal "-").read? parts ('-' :: rest) =
      some (parts, rest) := read?_literal rfl parts rest
  simp only [dateLayout, Layout.read?, Option.bind_some, year, month, day, dash, past]

theorem timeLayout_read? (t : Timestamp) {parts : Parts} (start : parts.nano = 0) :
    timeLayout.read? parts ((Timestamp.padded 2 t.hour).toList ++
      ':' :: ((Timestamp.padded 2 t.minute).toList ++
      ':' :: ((Timestamp.padded 2 t.second).toList ++
      ((Timestamp.fractionText t.nano).toList ++ ['Z'])))) =
        some ({ parts with
          hour := t.hour, minute := t.minute, second := t.second, nano := t.nano }, ['Z']) := by
  have hour (parts : Parts) (rest) : Piece.hour.read? parts
      ((Timestamp.padded 2 t.hour).toList ++ rest) = some ({ parts with hour := t.hour }, rest) := by
    rw [Piece.read?, twoDigits?_padded (by omega) (by omega) rest, Option.map_some]
  have minute (parts : Parts) (rest) : Piece.minute.read? parts
      ((Timestamp.padded 2 t.minute).toList ++ rest) =
        some ({ parts with minute := t.minute }, rest) := by
    rw [Piece.read?, twoDigits?_padded (by omega) (by omega) rest, Option.map_some]
  have second (parts : Parts) (rest) : Piece.second.read? parts
      ((Timestamp.padded 2 t.second).toList ++ rest) =
        some ({ parts with second := t.second }, rest) := by
    rw [Piece.read?, twoDigits?_padded (by omega) (by omega) rest, Option.map_some]
  have fraction (parts : Parts) (start : parts.nano = 0) := fraction_read? start t.nano.isLt
  have colon (parts : Parts) (rest) : Piece.spaces.read? parts (':' :: rest) =
      some (parts, ':' :: rest) := read?_spaces (by decide) parts rest
  have past (parts : Parts) (rest) : (Piece.literal ":").read? parts (':' :: rest) =
      some (parts, rest) := read?_literal rfl parts rest
  have zone (parts : Parts) (rest) : Piece.spaces.read? parts ('Z' :: rest) =
      some (parts, 'Z' :: rest) := read?_spaces (by decide) parts rest
  simp only [timeLayout, Layout.read?, Option.bind_some, hour, minute, second, colon, past, fraction,
    start, zone]

/-- The relaxed form reads a canonical text. -/
theorem relaxed?_text {t : Timestamp} (years : 0 ≤ t.date.year ∧ t.date.year ≤ 9999) :
    relaxed? t.text.toList = some t := by
  have offset : namedOffset? ['Z'] = some (0, []) := by decide
  rw [text_toList t years]
  simp only [relaxed?, Option.bind_eq_bind, dateLayout_read? years, Option.bind_some, dateSeparator?,
    timeLayout_read?, offset, timestamp?_parts]
  rfl

end Time

/-- A canonical text is read as the timestamp that it was written for. -/
theorem Timestamp.read?_text {t : Timestamp} (years : 0 ≤ t.date.year ∧ t.date.year ≤ 9999) :
    Timestamp.read? t.text = some t := by
  have start : Text.trimStart t.text.toList = t.text.toList := by
    rw [Time.text_toList t years]
    exact (Time.fixed_padded (by decide) (by omega)).trimStart
  have stop : ∃ front, t.text.toList = front ++ ['Z'] :=
    ⟨_, (String.toList_append).trans rfl⟩
  have trimmed : Text.trim t.text.toList = t.text.toList := by
    obtain ⟨front, ending⟩ := stop
    have solid : ('Z' :: front.reverse).dropWhile Text.isSpace = 'Z' :: front.reverse :=
      Time.trimStart_cons (by decide) front.reverse
    rw [Text.trim, start, ending, Text.trimEnd, List.reverse_append, List.reverse_singleton,
      List.singleton_append, solid, List.reverse_cons, List.reverse_reverse]
  rw [Timestamp.read?, trimmed, Time.internet?_text years]
  rfl

end LakeSchema
