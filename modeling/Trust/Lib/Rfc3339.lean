import Mathlib
import Trust.Lib.JsonNumber

/-!
# Times as RFC 3339 texts

The text that `Time.MarshalJSON` writes: the date and the clock in the zone of
the time, the nanoseconds without trailing zeros, and the offset of the zone in
whole minutes.  The text determines the local clock and what is printed of the
offset, and it depends on nothing else.  Errors print a time in whole seconds.
-/

namespace Trust.Lib.Rfc3339

/-! ## The calendar -/

/-- The days from the first day of year 1 to the first day of year `y`. -/
def daysBefore (y : ℤ) : ℤ := 365 * (y - 1) + (y - 1) / 4 - (y - 1) / 100 + (y - 1) / 400

/-- The year of a day; the estimate is off by one year at most. -/
def yearOf (day : ℤ) : ℤ :=
  let y := day * 400 / 146097 + 1
  if day < daysBefore y then y - 1
  else if daysBefore (y + 1) ≤ day then y + 1
  else y

theorem daysBefore_bounds (y : ℤ) :
    146097 * (y - 1) - 800 ≤ 400 * daysBefore y ∧
      400 * daysBefore y ≤ 146097 * (y - 1) + 800 := by
  rw [daysBefore]
  omega

theorem yearOf_spec (day : ℤ) :
    daysBefore (yearOf day) ≤ day ∧ day < daysBefore (yearOf day + 1) := by
  rw [yearOf]
  have hlow := daysBefore_bounds (day * 400 / 146097)
  have hhigh := daysBefore_bounds (day * 400 / 146097 + 1 + 1 + 1)
  split_ifs with hlt hle
  · rw [Int.add_sub_cancel]
    exact ⟨by omega, hlt⟩
  · exact ⟨hle, by omega⟩
  · omega

def isLeap (y : ℤ) : Bool := decide (y % 4 = 0 ∧ (y % 100 ≠ 0 ∨ y % 400 = 0))

def monthLengths (leap : Bool) : List ℕ :=
  [31, if leap then 29 else 28, 31, 30, 31, 30, 31, 31, 30, 31, 30, 31]

def monthDay (month d : ℕ) : List ℕ → ℕ × ℕ
  | [] => (month, d + 1)
  | len :: rest => if d < len then (month, d + 1) else monthDay (month + 1) (d - len) rest

theorem le_monthDay (month d : ℕ) (lens : List ℕ) : month ≤ (monthDay month d lens).1 := by
  induction lens generalizing month d with
  | nil => exact le_rfl
  | cons len rest ih =>
      rw [monthDay]
      split_ifs
      · exact le_rfl
      · exact (Nat.le_succ month).trans (ih _ _)

theorem monthDay_inj {month d d' : ℕ} {lens : List ℕ}
    (h : monthDay month d lens = monthDay month d' lens) : d = d' := by
  induction lens generalizing month d d' with
  | nil => exact Nat.succ.inj (Prod.mk.inj h).2
  | cons len rest ih =>
      rw [monthDay, monthDay] at h
      split_ifs at h with hd hd' hd'
      · exact Nat.succ.inj (Prod.mk.inj h).2
      · have hle := le_monthDay (month + 1) (d' - len) rest
        rw [← h] at hle
        exact (Nat.not_succ_le_self month hle).elim
      · have hle := le_monthDay (month + 1) (d - len) rest
        rw [h] at hle
        exact (Nat.not_succ_le_self month hle).elim
      · have heq := ih h
        omega

def dateOf (day : ℤ) : ℕ × ℕ :=
  monthDay 1 (day - daysBefore (yearOf day)).toNat (monthLengths (isLeap (yearOf day)))

theorem day_eq_of_date {day day' : ℤ} (hyear : yearOf day = yearOf day')
    (hdate : dateOf day = dateOf day') : day = day' := by
  rw [dateOf, dateOf, hyear] at hdate
  have hsub := monthDay_inj hdate
  have hday := (yearOf_spec day).1
  have hday' := (yearOf_spec day').1
  rw [hyear] at hday
  omega

/-! ## Padded numerals -/

def pad (width n : ℕ) : List Digit :=
  List.replicate (width - (Digit.numeral n).length) 0 ++ Digit.numeral n

@[simp] theorem ofDigits_pad (width n : ℕ) : Digit.ofDigits (pad width n) = n := by
  rw [pad, Digit.ofDigits_append, Digit.ofDigits_replicate_zero, Digit.ofDigits_numeral]
  simp

theorem pad_inj {width n n' : ℕ} (h : pad width n = pad width n') : n = n' := by
  rw [← ofDigits_pad width n, h, ofDigits_pad]

theorem length_pad {width n : ℕ} (hpos : 0 < width) (h : n < 10 ^ width) :
    (pad width n).length = width := by
  have hlen : (Digit.numeral n).length ≤ width := by
    rcases Nat.eq_zero_or_pos n with rfl | hn
    · exact hpos
    · have hpow := (Digit.pow_le_of_numeral hn).trans_lt h
      have hlt := (Nat.pow_lt_pow_iff_right (by norm_num)).mp hpow
      omega
  rw [pad, List.length_append, List.length_replicate]
  omega

/-- Two texts that start with digits and go on with something else. -/
theorem text_append_inj {ds ds' : List Digit} {rest rest' : GoString}
    (hrest : ∀ c ∈ rest.head?, Digit.ofByte? c = none)
    (hrest' : ∀ c ∈ rest'.head?, Digit.ofByte? c = none)
    (h : Digit.text ds ++ rest = Digit.text ds' ++ rest') : ds = ds' ∧ rest = rest' := by
  have hspan := Digit.span_text ds hrest
  rw [h, Digit.span_text ds' hrest'] at hspan
  exact ⟨(Prod.mk.inj hspan).1.symm, (Prod.mk.inj hspan).2.symm⟩

theorem text_injective : Function.Injective Digit.text := by
  intro ds ds' h
  have happend : Digit.text ds ++ [] = Digit.text ds' ++ [] := by rw [h]
  exact (text_append_inj (by simp) (by simp) happend).1

theorem pad_text_inj {width n n' : ℕ} {c c' : UInt8} {rest rest' : GoString}
    (hc : Digit.ofByte? c = none) (hc' : Digit.ofByte? c' = none)
    (h : Digit.text (pad width n) ++ c :: rest = Digit.text (pad width n') ++ c' :: rest') :
    n = n' ∧ rest = rest' := by
  obtain ⟨hds, hrest⟩ := text_append_inj (by simpa using hc) (by simpa using hc') h
  exact ⟨pad_inj hds, (List.cons.inj hrest).2⟩

/-! ## The text of a time -/

/-- The clock in the zone of the time, in nanoseconds. -/
def localNanos (t : Time) : ℤ := t.nanos + t.offset * 1000000000

def fraction (ns : ℕ) : List Digit := (pad 9 ns).rdropWhile (· = 0)

def zoneText (offset : ℤ) : GoString :=
  if offset = 0 then [90]
  else
    let minutes := (offset.tdiv 60).natAbs
    (if offset.tdiv 60 < 0 then 45 else 43) ::
      (Digit.text (pad 2 (minutes / 60)) ++ 58 :: Digit.text (pad 2 (minutes % 60)))

def yearText (y : ℤ) : GoString :=
  if y < 0 then 45 :: Digit.text (pad 4 y.natAbs) else Digit.text (pad 4 y.toNat)

def clockText (seconds : ℤ) (rest : GoString) : GoString :=
  let date := dateOf (seconds / 86400)
  let second := (seconds % 86400).toNat
  yearText (yearOf (seconds / 86400)) ++ 45 ::
    (Digit.text (pad 2 date.1) ++ 45 :: (Digit.text (pad 2 date.2) ++ 84 ::
      (Digit.text (pad 2 (second / 3600)) ++ 58 :: (Digit.text (pad 2 (second / 60 % 60)) ++ 58 ::
        (Digit.text (pad 2 (second % 60)) ++ rest)))))

/-- `t.Format(time.RFC3339)`: whole seconds. -/
def format (t : Time) : GoString :=
  clockText (localNanos t / 1000000000) (zoneText t.offset)

/-- The time in the format `RFC3339Nano`. -/
def text (t : Time) : GoString :=
  clockText (localNanos t / 1000000000)
    (Literal.fracText (fraction (localNanos t % 1000000000).toNat) ++ zoneText t.offset)

def year (t : Time) : ℤ := yearOf (localNanos t / 1000000000 / 86400)

/-- `Time.MarshalJSON` without the quotes. -/
def marshal (t : Time) : Except String GoString :=
  if year t < 0 ∨ 9999 < year t then
    .error "Time.MarshalJSON: year outside of range [0,9999]"
  else if 24 ≤ (t.offset.tdiv 60).natAbs / 60 then
    .error "Time.MarshalJSON: timezone hour outside of range [0,23]"
  else .ok (text t)

/-! ## What the text determines -/

theorem eq_of_rdropWhile_eq {ds ds' : List Digit} (hlen : ds.length = ds'.length)
    (h : ds.rdropWhile (· = 0) = ds'.rdropWhile (· = 0)) : ds = ds' := by
  have hzeros : ∀ l : List Digit, l = l.rdropWhile (· = 0) ++
      List.replicate (l.length - (l.rdropWhile (· = 0)).length) 0 := by
    intro l
    have hsplit := List.rdropWhile_append_rtakeWhile (p := fun d : Digit ↦ decide (d = 0)) (l := l)
    have hlength := congrArg List.length hsplit
    rw [List.length_append] at hlength
    have hall : l.rtakeWhile (· = 0) = List.replicate (l.rtakeWhile (· = 0)).length 0 :=
      List.eq_replicate_of_mem fun d hd ↦ by simpa using List.mem_rtakeWhile_imp hd
    rw [← hlength, Nat.add_sub_cancel_left, ← hall, hsplit]
  rw [hzeros ds, hzeros ds', h, hlen]

theorem fraction_inj {n n' : ℕ} (hn : n < 1000000000) (hn' : n' < 1000000000)
    (h : fraction n = fraction n') : n = n' :=
  pad_inj (eq_of_rdropWhile_eq
    ((length_pad (by norm_num) hn).trans (length_pad (by norm_num) hn').symm) h)

/-- The zone is printed as the same text. -/
def SameZone (o o' : ℤ) : Prop := (o = 0 ↔ o' = 0) ∧ o.tdiv 60 = o'.tdiv 60

theorem exists_sameZone_ne {o : ℤ} (h : o ≠ 0) : ∃ o', o' ≠ o ∧ SameZone o o' := by
  have htdiv : ∀ x : ℤ, x.tdiv 60 = if 0 ≤ x then x / 60 else -(-x / 60) := by
    intro x
    split_ifs with hx
    · exact Int.tdiv_eq_ediv_of_nonneg hx
    · rw [← neg_neg x, Int.neg_tdiv, neg_neg, Int.tdiv_eq_ediv_of_nonneg (by omega)]
  by_cases hnext : SameZone o (o + 1)
  · exact ⟨o + 1, by omega, hnext⟩
  · refine ⟨o - 1, by omega, ?_⟩
    simp only [SameZone, htdiv] at hnext ⊢
    split_ifs at hnext ⊢ <;> omega

theorem zoneText_eq_iff {o o' : ℤ} : zoneText o = zoneText o' ↔ SameZone o o' := by
  constructor
  · intro h
    rw [zoneText, zoneText] at h
    by_cases ho : o = 0 <;> by_cases ho' : o' = 0
    · rw [ho, ho']
      exact ⟨Iff.rfl, rfl⟩
    · rw [if_pos ho, if_neg ho'] at h
      split_ifs at h <;> simp at h
    · rw [if_neg ho, if_pos ho'] at h
      split_ifs at h <;> simp at h
    · rw [if_neg ho, if_neg ho', List.cons.injEq] at h
      obtain ⟨hsign, hdigits⟩ := h
      obtain ⟨hhours, hrest⟩ := pad_text_inj rfl rfl hdigits
      have hminutes := pad_inj (text_injective hrest)
      have hneg : o.tdiv 60 < 0 ↔ o'.tdiv 60 < 0 := by
        split_ifs at hsign with hneg hneg' hneg'
        · exact iff_of_true hneg hneg'
        · cases hsign
        · cases hsign
        · exact iff_of_false hneg hneg'
      exact ⟨iff_of_false ho ho', by omega⟩
  · rintro ⟨hzero, hminutes⟩
    rw [zoneText, zoneText, hminutes]
    simp only [hzero]

theorem zoneText_head (o : ℤ) :
    ∀ c ∈ (zoneText o).head?, Digit.ofByte? c = none ∧ c ≠ 46 := by
  rw [zoneText]
  split_ifs <;> simp <;> decide

theorem clockText_inj {s s' : ℤ} {rest rest' : GoString}
    (hyear : 0 ≤ yearOf (s / 86400)) (hyear' : 0 ≤ yearOf (s' / 86400))
    (hrest : ∀ c ∈ rest.head?, Digit.ofByte? c = none)
    (hrest' : ∀ c ∈ rest'.head?, Digit.ofByte? c = none)
    (h : clockText s rest = clockText s' rest') : s = s' ∧ rest = rest' := by
  rw [clockText, clockText, yearText, yearText, if_neg hyear.not_gt, if_neg hyear'.not_gt] at h
  obtain ⟨hyears, h⟩ := pad_text_inj rfl rfl h
  obtain ⟨hmonth, h⟩ := pad_text_inj rfl rfl h
  obtain ⟨hdom, h⟩ := pad_text_inj rfl rfl h
  obtain ⟨hhour, h⟩ := pad_text_inj rfl rfl h
  obtain ⟨hminute, h⟩ := pad_text_inj rfl rfl h
  obtain ⟨hsecond, h⟩ := text_append_inj hrest hrest' h
  have hday : s / 86400 = s' / 86400 := day_eq_of_date (by omega) (Prod.ext hmonth hdom)
  have hclock := pad_inj hsecond
  exact ⟨by omega, h⟩

theorem fracText_head {ds : List Digit} {rest : GoString}
    (hrest : ∀ c ∈ rest.head?, Digit.ofByte? c = none ∧ c ≠ 46) :
    ∀ c ∈ (Literal.fracText ds ++ rest).head?, Digit.ofByte? c = none := by
  rw [Literal.fracText]
  split_ifs
  · exact fun c hc ↦ (hrest c hc).1
  · simp
    decide

theorem text_congr {t t' : Time} (hlocal : localNanos t = localNanos t')
    (hzone : SameZone t.offset t'.offset) : text t = text t' := by
  rw [text, text, hlocal, zoneText_eq_iff.mpr hzone]

/-- Two times have one text exactly if their clocks agree and their offsets are
printed alike. -/
theorem text_eq_iff {t t' : Time} (hyear : 0 ≤ year t) (hyear' : 0 ≤ year t') :
    text t = text t' ↔ localNanos t = localNanos t' ∧ SameZone t.offset t'.offset := by
  have hscan : ∀ (ds : List Digit) (o : ℤ),
      Literal.scanFrac (Literal.fracText ds ++ zoneText o) = some (ds, zoneText o) := fun ds o ↦
    Literal.scanFrac_fracText (fun c hc ↦ (zoneText_head o c hc).1)
      fun hc ↦ (zoneText_head o 46 hc).2 rfl
  constructor
  · intro h
    obtain ⟨hseconds, hrest⟩ := clockText_inj hyear hyear' (fracText_head (zoneText_head _))
      (fracText_head (zoneText_head _)) h
    have hfrac := hscan (fraction (localNanos t % 1000000000).toNat) t.offset
    rw [hrest, hscan, Option.some.injEq, Prod.mk.injEq] at hfrac
    have hnanos := fraction_inj (by omega) (by omega) hfrac.1
    exact ⟨by omega, zoneText_eq_iff.mp hfrac.2.symm⟩
  · exact fun h ↦ text_congr h.1 h.2

theorem marshal_congr {t t' : Time} (hlocal : localNanos t = localNanos t')
    (hzone : SameZone t.offset t'.offset) : marshal t = marshal t' := by
  rw [marshal, marshal, year, year, hlocal, hzone.2, text_congr hlocal hzone]

theorem marshal_eq_ok_iff {t : Time} {s : GoString} :
    marshal t = .ok s ↔ (0 ≤ year t ∧ year t ≤ 9999) ∧ (t.offset.tdiv 60).natAbs / 60 < 24 ∧
      text t = s := by
  rw [marshal]
  split_ifs with hyear hzone
  · refine iff_of_false nofun fun h ↦ ?_
    have hrange := h.1
    omega
  · exact iff_of_false nofun fun h ↦ hzone.not_gt h.2.1
  · rw [Except.ok.injEq]
    exact ⟨fun h ↦ ⟨by omega, not_le.mp hzone, h⟩, fun h ↦ h.2.2⟩

theorem exists_text_eq (t : Time) :
    ∃ t', marshal t' = marshal t ∧ text t' = text t ∧ (t' = t → t.offset = 0) := by
  by_cases hoffset : t.offset = 0
  · exact ⟨t, rfl, rfl, fun _ ↦ hoffset⟩
  · obtain ⟨o, hne, hzone⟩ := exists_sameZone_ne hoffset
    have hlocal : localNanos t = localNanos ⟨t.nanos + (t.offset - o) * 1000000000, o⟩ := by
      simp only [localNanos]
      ring
    refine ⟨_, (marshal_congr hlocal hzone).symm, (text_congr hlocal hzone).symm, fun heq ↦ ?_⟩
    exact absurd (congrArg Time.offset heq) hne

/-- The offset that the text of a zone stands for; an offset of less than a
minute is printed as `+00:00` and stays apart from UTC. -/
def printedZone (offset : ℤ) : ℤ :=
  if offset = 0 then 0 else if offset.tdiv 60 = 0 then 1 else offset.tdiv 60 * 60

/-- The time that the text stands for. -/
def printed (t : Time) : Time :=
  ⟨localNanos t - printedZone t.offset * 1000000000, printedZone t.offset⟩

/-- What is read from the text: an offset that was printed as `+00:00` is none. -/
def reread (t : Time) : Time :=
  ⟨localNanos t - t.offset.tdiv 60 * 60 * 1000000000, t.offset.tdiv 60 * 60⟩

/-- The offset is not lost in the text. -/
def KeepsZone (t : Time) : Prop := t.offset.tdiv 60 = 0 → t.offset = 0

instance decidableKeepsZone (t : Time) : Decidable (KeepsZone t) :=
  inferInstanceAs (Decidable (_ → _))

theorem localNanos_reread (t : Time) : localNanos (reread t) = localNanos t := by
  simp only [reread, localNanos]
  ring

theorem tdiv_reread (t : Time) : (reread t).offset.tdiv 60 = t.offset.tdiv 60 := by
  rw [reread, Int.mul_tdiv_cancel _ (by norm_num)]

theorem sameZone_reread_iff {t : Time} : SameZone (reread t).offset t.offset ↔ KeepsZone t := by
  have htdiv := tdiv_reread t
  constructor
  · rintro ⟨hzero, -⟩ hminutes
    apply hzero.mp
    rw [reread, hminutes, zero_mul]
  · intro h
    refine ⟨⟨fun hzero ↦ h ?_, fun hzero ↦ ?_⟩, htdiv⟩
    · rw [← htdiv, hzero, Int.zero_tdiv]
    · rw [reread, hzero, Int.zero_tdiv, zero_mul]

theorem year_reread (t : Time) : year (reread t) = year t := by
  rw [year, year, localNanos_reread]

/-- The time that is read is printed as before exactly if the offset is not lost. -/
theorem text_reread_iff {t : Time} (hyear : 0 ≤ year t) :
    text (reread t) = text t ↔ KeepsZone t := by
  rw [text_eq_iff (by rwa [year_reread]) hyear, localNanos_reread, and_iff_right rfl,
    sameZone_reread_iff]

theorem printed_of_offset {t : Time} (h : t.offset = 0) : printed t = t := by
  cases t
  subst h
  simp [printed, printedZone, localNanos]

theorem offset_of_printed {t : Time} (h : (printed t).offset = 0) : t.offset = 0 := by
  have hzone : printedZone t.offset = 0 := h
  rw [printedZone] at hzone
  split_ifs at hzone <;> omega

theorem printed_eq_of_text {t t' : Time} (hyear : 0 ≤ year t) (hyear' : 0 ≤ year t')
    (h : text t = text t') : printed t = printed t' := by
  obtain ⟨hlocal, hzero, hminutes⟩ := (text_eq_iff hyear hyear').mp h
  have hzone : printedZone t.offset = printedZone t'.offset := by
    rw [printedZone, printedZone, hminutes]
    simp only [hzero]
  rw [printed, printed, hlocal, hzone]

end Trust.Lib.Rfc3339
