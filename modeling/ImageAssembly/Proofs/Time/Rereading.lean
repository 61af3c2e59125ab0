import ImageAssembly.Proofs.Time.Reading

/-! Timestamps through text and back. What is written of an instant is read as the same instant where its year
in UTC has four digits, and is refused in every other year. A leap second behind any other second than a minute's
last is written, and so read, as the second after that. -/

namespace ImageAssembly.Time

open Text.Integer (padded)

/-! ### Fractions -/

/-- A fraction of at most nine digits. -/
theorem isFraction_padded {width n nanos : Nat} (hw : 0 < width) (h9 : width ≤ 9) (hn : n < 10 ^ width)
    (h : n * 10 ^ (9 - width) = nanos) : IsFraction ('.' :: padded width n) nanos := by
  have hlen := length_paddedDigits hw hn
  have hfraction := IsFraction.digits (List.length_pos_iff.1 (hlen.symm ▸ hw))
    fun d => @lt_of_mem_paddedDigits width n d
  rwa [List.take_of_length_le (hlen.trans_le h9), digitsNumber_paddedDigits, hlen, ← padded_eq, h] at hfraction

/-- A fraction is written with digits that tell it. -/
theorem isFraction_writeFraction {nanos : Nat} (h : nanos < second) : IsFraction (writeFraction nanos) nanos := by
  rw [second] at h
  rw [writeFraction]
  split_ifs with h0 h6 h3
  · rw [h0]
    exact .none
  · exact isFraction_padded (by decide) (by decide) (by omega) (by omega)
  · exact isFraction_padded (by decide) (by decide) (by omega) (by omega)
  · exact isFraction_padded (by decide) (by decide) (by omega) (by omega)

/-! ### Instants -/

theorem readDigits_sign (n : Nat) (negative : Bool) (r : List Char) :
    readDigits (n + 1) 0 ((if negative then '-' else '+') :: r) = none := by
  cases negative <;> rfl

namespace Instant

/-- Whether the year of an instant, in UTC, has four digits. -/
def HasPlainYear (t : Instant) : Prop := 0 ≤ t.date.year ∧ t.date.year ≤ 9999

instance (t : Instant) : Decidable t.HasPlainYear := inferInstanceAs (Decidable (_ ∧ _))

theorem cast_secondOfDay (t : Instant) : (t.secondOfDay : Int) = t.seconds % 86400 := Int.toNat_of_nonneg (by omega)

theorem secondOfDay_lt (t : Instant) : t.secondOfDay < 86400 := by
  rw [secondOfDay]
  omega

/-- The count of seconds in the minute; a leap second is the sixty-first. -/
def writtenSecond (t : Instant) : Nat := t.secondOfDay % 60 + if t.nanos < second then 0 else 1

theorem min_writtenSecond {t : Instant} (h : t.IsProper) :
    ((min t.writtenSecond 59 : ℕ) : Int) = t.seconds % 60 := by
  have hs := t.cast_secondOfDay
  unfold IsProper at h
  rw [writtenSecond]
  split <;> omega

theorem writtenSecond_le (t : Instant) : t.writtenSecond ≤ 60 := by
  rw [writtenSecond]
  split <;> omega

theorem writtenSecond_eq_sixty {t : Instant} (h : t.IsProper) : t.writtenSecond = 60 ↔ second ≤ t.nanos := by
  have hs := t.cast_secondOfDay
  unfold IsProper at h
  rw [writtenSecond]
  split <;> omega

/-- The date and time in UTC that are written of an instant. -/
def inUtc (t : Instant) (h : t.HasPlainYear) : LocalTime where
  day := t.seconds / 86400
  date := t.date
  hour := t.secondOfDay / 3600
  minute := t.secondOfDay / 60 % 60
  sec := t.writtenSecond
  fraction := t.nanos % second
  isDay := Date.isDay_iff.2 ⟨Date.isValid_ofDayNumber _, Date.dayNumber_ofDayNumber _⟩
  year_ok := h
  hour_ok := Nat.le_of_lt_succ (Nat.div_lt_of_lt_mul t.secondOfDay_lt)
  minute_ok := Nat.le_of_lt_succ (Nat.mod_lt _ (by decide))
  sec_ok := t.writtenSecond_le
  fraction_ok := Nat.mod_lt _ (by decide)

theorem seconds_inUtc {t : Instant} (h : t.HasPlainYear) (hproper : t.IsProper) :
    (t.inUtc h).seconds = t.seconds := by
  have hs := t.cast_secondOfDay
  show t.seconds / 86400 * 86400 + ((3600 * (t.secondOfDay / 3600) + 60 * (t.secondOfDay / 60 % 60) +
    min t.writtenSecond 59 : ℕ) : Int) = t.seconds
  rw [Nat.cast_add, min_writtenSecond hproper]
  omega

theorem nanos_inUtc {t : Instant} (h : t.HasPlainYear) (hproper : t.IsProper) : (t.inUtc h).nanos = t.nanos := by
  have hnanos := t.nanos_ok
  show (if t.writtenSecond = 60 then t.nanos % second + second else t.nanos % second) = t.nanos
  simp only [writtenSecond_eq_sixty hproper]
  rw [second] at *
  split_ifs <;> omega

/-- The date and time in UTC are those of the instant. -/
theorem instant_inUtc {t : Instant} (h : t.HasPlainYear) (hproper : t.IsProper) : (t.inUtc h).instant 0 = t := by
  have hseconds : ((t.inUtc h).instant 0).seconds = t.seconds := (Int.sub_zero _).trans (seconds_inUtc h hproper)
  have hinstant := of?_eq_some_iff.2 ⟨(t.inUtc h).isProper_instant 0, hseconds, nanos_inUtc h hproper⟩
  exact Option.some.inj (hinstant.symm.trans (of?_self hproper))

/-- What is written of an instant spells its date and time in UTC. -/
theorem spells_toExactText {t : Instant} (h : t.HasPlainYear) : Spells t.toExactText (t.inUtc h) 0 := by
  have hyear : writeYear t.date.year = padded 4 t.date.year.toNat := if_pos h
  refine ⟨'T', writeFraction (t.nanos % second), ['Z'], .inl rfl,
    isFraction_writeFraction (Nat.mod_lt _ (by decide)), .utc (.inl rfl), ?_⟩
  rw [toExactText, String.toList_ofList, writeSecond, hyear]
  rfl

/-- A year of more digits is written with a sign, with which no timestamp begins. -/
theorem ofText?_of_not_hasPlainYear {t : Instant} (h : ¬t.HasPlainYear) : ofText? t.toExactText = none := by
  have hyear : writeYear t.date.year =
      (if decide (t.date.year < 0) then '-' else '+') :: padded 4 t.date.year.natAbs := by
    simp only [decide_eq_true_eq]
    exact if_neg h
  rw [ofText?, toExactText, String.toList_ofList, writeSecond, hyear]
  simp only [List.cons_append, readDigits_sign]
  rfl

/-! ### Leap seconds -/

/-- The instant that the text of another names: a leap second that is no minute's is the second after its own. -/
def settled (t : Instant) : Instant :=
  if t.IsProper then t else ⟨t.seconds + 1, t.nanos - second, Nat.lt_of_le_of_lt (Nat.sub_le _ _) t.nanos_ok⟩

theorem settled_of_isProper {t : Instant} (h : t.IsProper) : t.settled = t := if_pos h

theorem settled_of_not_isProper {t : Instant} (h : ¬t.IsProper) :
    t.settled.seconds = t.seconds + 1 ∧ t.nanos = t.settled.nanos + second := by
  have hsettled : t.settled = ⟨t.seconds + 1, t.nanos - second, _⟩ := if_neg h
  unfold IsProper at h
  rw [hsettled]
  exact ⟨rfl, by dsimp only; omega⟩

/-- A leap second behind another second than a minute's last. -/
def strayLeapSecond : Instant := ⟨30, 1000000000, by decide⟩

theorem settled_strayLeapSecond_ne : strayLeapSecond.settled ≠ strayLeapSecond := by decide

theorem isProper_settled (t : Instant) : t.settled.IsProper := by
  by_cases h : t.IsProper
  · rwa [settled_of_isProper h]
  · have hnanos := t.nanos_ok
    have hsettled := (settled_of_not_isProper h).2
    exact .inl (by omega)

@[simp] theorem settled_settled (t : Instant) : t.settled.settled = t.settled := settled_of_isProper t.isProper_settled

theorem date_settled (t : Instant) : t.settled.date = t.date := by
  by_cases h : t.IsProper
  · rw [settled_of_isProper h]
  · have hseconds := (settled_of_not_isProper h).1
    unfold IsProper at h
    have hday : t.settled.seconds / 86400 = t.seconds / 86400 := by omega
    rw [date, hday, date]

theorem hasPlainYear_settled {t : Instant} : t.settled.HasPlainYear ↔ t.HasPlainYear := by
  rw [HasPlainYear, date_settled, HasPlainYear]

/-- The second after one that is not a minute's last is of the same minute. -/
theorem secondOfDay_settled {t : Instant} (h : ¬t.IsProper) :
    t.settled.secondOfDay = t.secondOfDay + 1 ∧ t.secondOfDay % 60 ≠ 59 := by
  have hs := t.cast_secondOfDay
  have hs' := t.settled.cast_secondOfDay
  have hseconds := (settled_of_not_isProper h).1
  unfold IsProper at h
  omega

theorem writeSecond_eq (t : Instant) : writeSecond t = writeYear t.date.year ++ '-' :: padded 2 t.date.month ++ '-' ::
    padded 2 t.date.day ++ 'T' :: padded 2 (t.secondOfDay / 60 / 60) ++ ':' :: padded 2 (t.secondOfDay / 60 % 60) ++
      ':' :: padded 2 t.writtenSecond := by
  rw [Nat.div_div_eq_div_mul]
  rfl

theorem writeSecond_settled (t : Instant) : writeSecond t.settled = writeSecond t := by
  by_cases h : t.IsProper
  · rw [settled_of_isProper h]
  · obtain ⟨hday, hlast⟩ := secondOfDay_settled h
    have hnanos := (settled_of_not_isProper h).2
    have hbound := t.nanos_ok
    have hminute : t.settled.secondOfDay / 60 = t.secondOfDay / 60 := by omega
    have hsecond : t.settled.writtenSecond = t.writtenSecond := by
      rw [writtenSecond, writtenSecond, if_pos (by omega), if_neg (by omega)]
      omega
    rw [writeSecond_eq, writeSecond_eq, date_settled, hminute, hsecond]

theorem toExactText_settled (t : Instant) : t.settled.toExactText = t.toExactText := by
  have hfraction : t.settled.nanos % second = t.nanos % second := by
    by_cases h : t.IsProper
    · rw [settled_of_isProper h]
    · rw [(settled_of_not_isProper h).2, Nat.add_mod_right]
  rw [toExactText, writeSecond_settled, hfraction, toExactText]

/-- A timestamp is read back as the instant that it names where its year has four digits, and is refused elsewhere. -/
theorem ofText?_toExactText (t : Instant) :
    ofText? t.toExactText = if t.HasPlainYear then some t.settled else none := by
  split_ifs with hyear
  · have hyear' := hasPlainYear_settled.2 hyear
    rw [← toExactText_settled, ofText?_of_spells (spells_toExactText hyear'), instant_inUtc hyear' t.isProper_settled]
  · exact ofText?_of_not_hasPlainYear hyear

/-! ### Whole seconds -/

@[simp] theorem seconds_truncate (t : Instant) : t.truncate.seconds = t.seconds := rfl

theorem nanos_truncate (t : Instant) : t.truncate.nanos = if t.nanos < second then 0 else second := rfl

theorem hasPlainYear_truncate (t : Instant) : t.truncate.HasPlainYear ↔ t.HasPlainYear := by
  rw [HasPlainYear, date, seconds_truncate, ← date, HasPlainYear]

theorem nanos_truncate_lt (t : Instant) : t.truncate.nanos < second ↔ t.nanos < second := by
  have hsecond : 0 < second := by decide
  rw [nanos_truncate]
  split_ifs with h <;> omega

theorem isProper_truncate {t : Instant} : t.truncate.IsProper ↔ t.IsProper := by
  rw [IsProper, nanos_truncate_lt, seconds_truncate, IsProper]

theorem writeSecond_truncate (t : Instant) : writeSecond t.truncate = writeSecond t := by
  simp only [writeSecond, date, secondOfDay, seconds_truncate, nanos_truncate_lt]

/-- The timestamp of a build is that of its whole second. -/
theorem toSecondText_eq (t : Instant) : t.toSecondText = t.truncate.toExactText := by
  have hfraction : t.truncate.nanos % second = 0 := by
    rw [nanos_truncate]
    split_ifs <;> simp
  rw [toSecondText, toExactText, writeSecond_truncate, hfraction, writeFraction, if_pos rfl, List.append_nil]

theorem ofText?_toSecondText (t : Instant) :
    ofText? t.toSecondText = if t.HasPlainYear then some t.truncate.settled else none := by
  rw [toSecondText_eq, ofText?_toExactText]
  simp only [hasPlainYear_truncate]

end Instant

end ImageAssembly.Time
