import ImageAssembly.Proofs.Text.Integer
import ImageAssembly.Proofs.Time.Counting
import ImageAssembly.Time.Rfc3339

/-! What a timestamp says. A text is taken for a timestamp if it is a local date and time, a fraction and an offset
next to each other, and is read as the instant of that local time less the offset. -/

namespace ImageAssembly.Time

open Digits
open Text.Integer (padded digitValue? digitValue?_digitChar digitValue?_eq_some isDigit_digitChar)

/-! ### Digits -/

/-- The digits of a padded number. -/
def paddedDigits (width n : Nat) : List Nat :=
  List.replicate (width - (decimalDigits n).length) 0 ++ decimalDigits n

theorem padded_eq (width n : Nat) : padded width n = (paddedDigits width n).map Nat.digitChar := by
  have h0 : Nat.digitChar 0 = '0' := rfl
  rw [padded, toDigits_eq_map, paddedDigits, List.map_append, List.map_replicate, h0]
  simp only [List.length_map]

theorem lt_of_mem_paddedDigits {width n d : Nat} (h : d ∈ paddedDigits width n) : d < 10 := by
  rcases List.mem_append.1 h with h | h
  · exact lt_of_mem_zeros h
  · exact lt_of_mem_decimalDigits h

theorem digitsNumber_paddedDigits (width n : Nat) : digitsNumber 0 (paddedDigits width n) = n := by
  have hzeros : ∀ k : Nat, digitsNumber 0 (List.replicate k 0) = 0 := by
    intro k
    induction k with
    | zero => rfl
    | succ k ih => rw [List.replicate_succ]; exact ih
  rw [paddedDigits, digitsNumber_append, hzeros, digitsNumber_decimalDigits]

theorem length_paddedDigits {width n : Nat} (hw : 0 < width) (h : n < 10 ^ width) :
    (paddedDigits width n).length = width := by
  have hlen : (decimalDigits n).length ≤ width := by
    rcases Nat.eq_zero_or_pos n with rfl | hn
    · rw [decimalDigits_zero]
      exact hw
    obtain ⟨d, ds, hds⟩ := List.exists_cons_of_ne_nil (decimalDigits_ne_nil n)
    have := (Nat.pow_lt_pow_iff_right (by decide)).1 ((pow_length_le hn hds).trans_lt h)
    rw [hds, List.length_cons]
    omega
  rw [paddedDigits, List.length_append, List.length_replicate]
  omega

theorem readDigits_map {ds : List Nat} (h : ∀ d ∈ ds, d < 10) (acc : Nat) (r : List Char) :
    readDigits ds.length acc (ds.map Nat.digitChar ++ r) = some (digitsNumber acc ds, r) := by
  induction ds generalizing acc with
  | nil => rfl
  | cons d ds ih =>
    rw [List.length_cons, List.map_cons, List.cons_append, readDigits, digitValue?_digitChar d (h d (by simp)),
      Option.bind_some, ih fun e he => h e (by simp [he])]
    rfl

/-- A padded number of as many digits as are read. -/
theorem readDigits_padded {width n : Nat} (hw : 0 < width) (h : n < 10 ^ width) (r : List Char) :
    readDigits width 0 (padded width n ++ r) = some (n, r) := by
  have := readDigits_map (fun d => @lt_of_mem_paddedDigits width n d) 0 r
  rwa [length_paddedDigits hw h, digitsNumber_paddedDigits, ← padded_eq] at this

theorem readDigits_eq_some {width acc n : Nat} {s r : List Char} (h : readDigits width acc s = some (n, r)) :
    ∃ ds : List Nat, ds.length = width ∧ (∀ d ∈ ds, d < 10) ∧ s = ds.map Nat.digitChar ++ r ∧
      n = digitsNumber acc ds := by
  induction width generalizing acc s with
  | zero =>
    injection h with h
    injection h with hn hr
    exact ⟨[], rfl, by simp, hr, hn.symm⟩
  | succ width ih =>
    cases s with
    | nil => cases h
    | cons c s =>
      rw [readDigits, Option.bind_eq_some_iff] at h
      obtain ⟨d, hd, h⟩ := h
      obtain ⟨hd10, rfl⟩ := digitValue?_eq_some hd
      obtain ⟨ds, rfl, hds, rfl, rfl⟩ := ih h
      exact ⟨d :: ds, rfl, List.forall_mem_cons.2 ⟨hd10, hds⟩, rfl, rfl⟩

/-- A number is read where it stands, filled up with zeros to the digits that are read. -/
theorem readDigits_eq_some_iff {width n : Nat} (hw : 0 < width) {s r : List Char} :
    readDigits width 0 s = some (n, r) ↔ n < 10 ^ width ∧ s = padded width n ++ r := by
  constructor
  · intro h
    obtain ⟨ds, hlen, hds, hs, hn⟩ := readDigits_eq_some h
    have hlt : n < 10 ^ width := by
      have := @digitsNumber_lt 0 _ hds
      rwa [← hn, hlen, zero_add, one_mul] at this
    have hnumber : digitsNumber 0 ds = digitsNumber 0 (paddedDigits width n) := by
      rw [← hn, digitsNumber_paddedDigits]
    have hpadded := (eq_of_digitsNumber_eq hds (fun d => lt_of_mem_paddedDigits)
      (hlen.trans (length_paddedDigits hw hlt).symm) hnumber).2
    rw [hs, hpadded, ← padded_eq]
    exact ⟨hlt, rfl⟩
  · rintro ⟨hlt, rfl⟩
    exact readDigits_padded hw hlt r

theorem readChar_eq_some_iff {accepts : Char → Bool} {s r : List Char} :
    readChar accepts s = some r ↔ ∃ c, accepts c = true ∧ s = c :: r := by
  cases s with
  | nil => simp [readChar]
  | cons c s =>
    show (if accepts c then some s else none) = some r ↔ _
    split_ifs with hc
    · simp [hc]
    · simp only [false_iff, not_exists, not_and, List.cons.injEq]
      rintro d hd rfl
      exact absurd hd hc

theorem readDigits_bind {β : Type} {width : Nat} {s : List Char} {next : Nat × List Char → Option β} {b : β} :
    (readDigits (width + 1) 0 s >>= next) = some b ↔
      ∃ n r, n < 10 ^ (width + 1) ∧ s = padded (width + 1) n ++ r ∧ next (n, r) = some b := by
  simp only [Option.bind_eq_bind, Option.bind_eq_some_iff, Prod.exists, readDigits_eq_some_iff (Nat.succ_pos width),
    and_assoc]

theorem readChar_bind {β : Type} {accepts : Char → Bool} {s : List Char} {next : List Char → Option β} {b : β} :
    (readChar accepts s >>= next) = some b ↔ ∃ c r, accepts c = true ∧ s = c :: r ∧ next r = some b := by
  simp only [Option.bind_eq_bind, Option.bind_eq_some_iff, readChar_eq_some_iff]
  constructor
  · rintro ⟨r, ⟨c, hc, hs⟩, h⟩
    exact ⟨c, r, hc, hs, h⟩
  · rintro ⟨c, r, hc, hs, h⟩
    exact ⟨r, ⟨c, hc, hs⟩, h⟩

/-! ### Fractions -/

/-- A fraction of a second in nanoseconds: none, or a point and digits, of which the first nine count. -/
inductive IsFraction : List Char → Nat → Prop
  | none : IsFraction [] 0
  | digits {ds : List Nat} : ds ≠ [] → (∀ d ∈ ds, d < 10) →
      IsFraction ('.' :: ds.map Nat.digitChar) (digitsNumber 0 (ds.take 9) * 10 ^ (9 - ds.length))

theorem IsFraction.lt {s : List Char} {nanos : Nat} (h : IsFraction s nanos) : nanos < second := by
  cases h with
  | none => decide
  | @digits ds hne hds =>
    have hlt : digitsNumber 0 (ds.take 9) < 10 ^ min 9 ds.length := by
      have := @digitsNumber_lt 0 (ds.take 9) fun d hd => hds d (List.mem_of_mem_take hd)
      rwa [List.length_take, zero_add, one_mul] at this
    calc digitsNumber 0 (ds.take 9) * 10 ^ (9 - ds.length)
        < 10 ^ min 9 ds.length * 10 ^ (9 - ds.length) := Nat.mul_lt_mul_of_pos_right hlt (by positivity)
      _ = 10 ^ 9 := by
        rw [← pow_add]
        congr 1
        omega

/-- Whether a text does not begin with a digit. -/
def NoDigitFirst (s : List Char) : Prop := ∀ c ∈ s.head?, digitValue? c = none

theorem readFractionDigits_append {left acc : Nat} {ds : List Nat} (hds : ∀ d ∈ ds, d < 10) {r : List Char}
    (hr : NoDigitFirst r) : readFractionDigits left acc (ds.map Nat.digitChar ++ r) =
      (digitsNumber acc (ds.take left) * 10 ^ (left - ds.length), r) := by
  induction ds generalizing left acc with
  | nil =>
    cases r with
    | nil => simp [readFractionDigits, digitsNumber]
    | cons c r =>
      have hc := hr c rfl
      simp [readFractionDigits, hc, digitsNumber]
  | cons d ds ih =>
    have hd := digitValue?_digitChar d (hds d (.head _))
    have hrest : ∀ e ∈ ds, e < 10 := fun e he => hds e (.tail _ he)
    cases left with
    | zero =>
      simp only [List.map_cons, List.cons_append, readFractionDigits, hd]
      rw [ih hrest]
      simp
    | succ left =>
      simp only [List.map_cons, List.cons_append, readFractionDigits, hd]
      rw [ih hrest, List.length_cons, Nat.add_sub_add_right]
      rfl

/-- Every text begins with as many digits as it has in front. -/
theorem exists_digits (s : List Char) : ∃ (ds : List Nat) (r : List Char),
    (∀ d ∈ ds, d < 10) ∧ NoDigitFirst r ∧ s = ds.map Nat.digitChar ++ r := by
  induction s with
  | nil => exact ⟨[], [], by simp, by simp [NoDigitFirst], rfl⟩
  | cons c s ih =>
    cases hc : digitValue? c with
    | none =>
      refine ⟨[], c :: s, by simp, ?_, rfl⟩
      intro e he
      cases he
      exact hc
    | some d =>
      obtain ⟨hd, rfl⟩ := digitValue?_eq_some hc
      obtain ⟨ds, r, hds, hr, rfl⟩ := ih
      exact ⟨d :: ds, r, List.forall_mem_cons.2 ⟨hd, hds⟩, hr, rfl⟩

theorem readFraction_sound {s r : List Char} {nanos : Nat} (h : readFraction s = some (nanos, r)) :
    ∃ f, IsFraction f nanos ∧ s = f ++ r := by
  unfold readFraction at h
  split at h
  · rename_i c s
    split_ifs at h with hc
    injection h with h
    obtain ⟨ds, r', hds, hr, hs⟩ := exists_digits (c :: s)
    rw [hs, readFractionDigits_append hds hr] at h
    injection h with hnanos hr'
    subst hnanos hr'
    refine ⟨_, .digits ?_ hds, by rw [hs]; rfl⟩
    -- the digit after the point is one of them
    rintro rfl
    obtain rfl : c :: s = r' := hs
    have := hr c rfl
    simp [digitValue?, hc] at this
  · cases h
  · injection h with h
    injection h with hnanos hr
    subst hnanos hr
    exact ⟨[], .none, rfl⟩

theorem readFraction_append {f r : List Char} {nanos : Nat} (h : IsFraction f nanos) (hdigit : NoDigitFirst r)
    (hpoint : r.head? ≠ some '.') : readFraction (f ++ r) = some (nanos, r) := by
  cases h with
  | none =>
    unfold readFraction
    split
    · next hs =>
      rw [List.nil_append] at hs
      simp [hs] at hpoint
    · next hs =>
      rw [List.nil_append] at hs
      simp [hs] at hpoint
    · rfl
  | @digits ds hne hds =>
    obtain ⟨d, ds, rfl⟩ := List.exists_cons_of_ne_nil hne
    have hread := @readFractionDigits_append 9 0 _ hds _ hdigit
    show (if (Nat.digitChar d).isDigit then some (readFractionDigits 9 0 ((d :: ds).map Nat.digitChar ++ r)) else none)
      = some (_, r)
    rw [if_pos (isDigit_digitChar d (hds d (.head _))), hread]

/-! ### Offsets -/

/-- An offset in minutes east of UTC. -/
inductive IsOffset : List Char → Int → Prop
  | utc {c : Char} : c = 'Z' ∨ c = 'z' → IsOffset [c] 0
  | east {hours minutes : Nat} : hours ≤ 23 → minutes ≤ 59 →
      IsOffset ('+' :: padded 2 hours ++ ':' :: padded 2 minutes) (60 * hours + minutes)
  | west {c : Char} {hours minutes : Nat} : c = '-' ∨ c = '\u2212' → hours ≤ 23 → minutes ≤ 59 →
      IsOffset (c :: padded 2 hours ++ ':' :: padded 2 minutes) (-(60 * hours + minutes))

theorem readOffset_utc {c : Char} (h : c = 'Z' ∨ c = 'z') (s : List Char) : readOffset (c :: s) = some (0, s) :=
  if_pos h

theorem readOffset_sign {c : Char} (h : c = '+' ∨ c = '-' ∨ c = '\u2212') {s r : List Char} {offset : Int} :
    readOffset (c :: s) = some (offset, r) ↔ ∃ hours minutes : Nat, hours ≤ 23 ∧ minutes ≤ 59 ∧
      s = padded 2 hours ++ ':' :: padded 2 minutes ++ r ∧
      offset = if c = '+' then ((60 * hours + minutes : Nat) : Int) else -(60 * hours + minutes : Nat) := by
  have hutc : ¬(c = 'Z' ∨ c = 'z') := by
    rcases h with rfl | rfl | rfl <;> decide
  unfold readOffset
  dsimp only
  rw [if_neg hutc, if_pos h]
  constructor
  · intro h
    obtain ⟨hours, s₁, -, rfl, h₁⟩ := readDigits_bind.1 h
    obtain ⟨colon, s₂, hcolon, rfl, h₂⟩ := readChar_bind.1 h₁
    obtain ⟨minutes, s₃, -, rfl, h₃⟩ := readDigits_bind.1 h₂
    obtain ⟨⟨hh, hm⟩, h₄⟩ := Option.ite_none_right_eq_some.1 h₃
    injection h₄ with h₅
    injection h₅ with hoffset hr
    rw [beq_iff_eq] at hcolon
    subst hcolon hoffset hr
    exact ⟨hours, minutes, hh, hm, by simp, rfl⟩
  · rintro ⟨hours, minutes, hh, hm, rfl, rfl⟩
    rw [List.append_assoc, List.cons_append]
    refine readDigits_bind.2 ⟨hours, _, by omega, rfl, ?_⟩
    refine readChar_bind.2 ⟨':', _, rfl, rfl, ?_⟩
    refine readDigits_bind.2 ⟨minutes, _, by omega, rfl, ?_⟩
    exact if_pos ⟨hh, hm⟩

/-- An offset is read where one is written. -/
theorem readOffset_eq_some_iff {s r : List Char} {offset : Int} :
    readOffset s = some (offset, r) ↔ ∃ z, IsOffset z offset ∧ s = z ++ r := by
  constructor
  · intro h
    cases s with
    | nil => cases h
    | cons c s =>
      by_cases hutc : c = 'Z' ∨ c = 'z'
      · rw [readOffset_utc hutc] at h
        injection h with h
        injection h with hoffset hr
        subst hoffset hr
        exact ⟨[c], .utc hutc, rfl⟩
      by_cases hsign : c = '+' ∨ c = '-' ∨ c = '\u2212'
      · obtain ⟨hours, minutes, hh, hm, rfl, rfl⟩ := (readOffset_sign hsign).1 h
        split_ifs with hplus
        · subst hplus
          exact ⟨_, .east hh hm, rfl⟩
        · exact ⟨_, .west (hsign.resolve_left hplus) hh hm, rfl⟩
      · unfold readOffset at h
        dsimp only at h
        rw [if_neg hutc, if_neg hsign] at h
        cases h
  · rintro ⟨z, h, rfl⟩
    cases h with
    | utc hc => exact readOffset_utc hc r
    | east hh hm => exact (readOffset_sign (.inl rfl)).2 ⟨_, _, hh, hm, rfl, rfl⟩
    | west hc hh hm =>
      refine (readOffset_sign (.inr hc)).2 ⟨_, _, hh, hm, rfl, ?_⟩
      rw [if_neg (by rcases hc with rfl | rfl <;> decide)]
      rfl

theorem IsOffset.noDigitFirst {z : List Char} {offset : Int} (h : IsOffset z offset) :
    NoDigitFirst z ∧ z.head? ≠ some '.' := by
  cases h with
  | utc hc => rcases hc with rfl | rfl <;> simp [NoDigitFirst, digitValue?]
  | east => simp [NoDigitFirst, digitValue?]
  | west hc => rcases hc with rfl | rfl <;> simp [NoDigitFirst, digitValue?]

/-! ### Local times -/

/-- A date and time of day at some place, the day also by its distance from 1 January 1970. The leap second of a
minute is its second 60. -/
structure LocalTime where
  day : Int
  date : Date
  hour : Nat
  minute : Nat
  sec : Nat
  fraction : Nat
  isDay : Date.IsDay day date
  year_ok : 0 ≤ date.year ∧ date.year ≤ 9999
  hour_ok : hour ≤ 23
  minute_ok : minute ≤ 59
  sec_ok : sec ≤ 60
  fraction_ok : fraction < second

namespace LocalTime

/-- How a date and time are written up to the second. -/
def text (l : LocalTime) (separator : Char) : List Char :=
  padded 4 l.date.year.toNat ++ '-' :: padded 2 l.date.month ++ '-' :: padded 2 l.date.day ++ separator ::
    padded 2 l.hour ++ ':' :: padded 2 l.minute ++ ':' :: padded 2 l.sec

/-- Seconds since the beginning of 1970 at the same place; a leap second counts as the one before it. -/
def seconds (l : LocalTime) : Int :=
  l.day * 86400 + (3600 * l.hour + 60 * l.minute + min l.sec 59 : Nat)

/-- Nanoseconds of the second, which go on from a whole one in a leap second. -/
def nanos (l : LocalTime) : Nat := if l.sec = 60 then l.fraction + second else l.fraction

theorem nanos_ok (l : LocalTime) : l.nanos < 2 * second := by
  have hfraction := l.fraction_ok
  unfold nanos
  split_ifs <;> omega

/-- The instant of a local time less its offset from UTC in minutes. -/
def instant (l : LocalTime) (offset : Int) : Instant := ⟨l.seconds - 60 * offset, l.nanos, l.nanos_ok⟩

end LocalTime

/-- Whether a leap second, if an instant lies in one, stands behind a minute's last second. -/
def Instant.IsProper (t : Instant) : Prop := t.nanos < second ∨ t.seconds % 60 = 59

instance (t : Instant) : Decidable t.IsProper := inferInstanceAs (Decidable (_ ∨ _))

theorem LocalTime.isProper_instant (l : LocalTime) (offset : Int) : (l.instant offset).IsProper := by
  have hfraction := l.fraction_ok
  show l.nanos < second ∨ (l.seconds - 60 * offset) % 60 = 59
  unfold nanos
  split_ifs with hleap
  · rw [seconds, hleap]
    omega
  · exact .inl hfraction

/-- Whether a text is a timestamp of a local time and an offset in minutes. -/
def Spells (text : String) (l : LocalTime) (offset : Int) : Prop :=
  ∃ separator f z, (separator = 'T' ∨ separator = 't' ∨ separator = ' ') ∧ IsFraction f l.fraction ∧
    IsOffset z offset ∧ text.toList = l.text separator ++ f ++ z

theorem Instant.of?_self {t : Instant} (h : t.IsProper) : of? t.seconds t.nanos = some t := dif_pos ⟨t.nanos_ok, h⟩

theorem Instant.of?_eq_some_iff {seconds : Int} {nanos : Nat} {t : Instant} :
    of? seconds nanos = some t ↔ t.IsProper ∧ t.seconds = seconds ∧ t.nanos = nanos := by
  constructor
  · intro h
    unfold of? at h
    split_ifs at h with hok
    injection h with h
    subst h
    exact ⟨hok.2, rfl, rfl⟩
  · rintro ⟨hproper, rfl, rfl⟩
    exact of?_self hproper

/-- The parts of a text are put together if they are a local time's. -/
theorem assemble_eq_some {date : Date} {hour minute sec fraction : Nat} {offset : Int} {t : Instant}
    (hyear : 0 ≤ date.year ∧ date.year ≤ 9999) (hfraction : fraction < second)
    (h : assemble date hour minute sec fraction offset = some t) :
    ∃ l : LocalTime, l.date = date ∧ l.hour = hour ∧ l.minute = minute ∧ l.sec = sec ∧ l.fraction = fraction ∧
      l.instant offset = t := by
  unfold assemble at h
  rw [Option.ite_none_right_eq_some] at h
  obtain ⟨⟨hdate, hhour, hminute, hsec⟩, h⟩ := h
  obtain ⟨-, hseconds, hnanos⟩ := Instant.of?_eq_some_iff.1 h
  refine ⟨⟨date.dayNumber, date, hour, minute, sec, fraction, Date.isDay_iff.2 ⟨hdate, rfl⟩, hyear, hhour, hminute,
    hsec, hfraction⟩, rfl, rfl, rfl, rfl, rfl, ?_⟩
  cases t
  simp only [LocalTime.instant, LocalTime.seconds, LocalTime.nanos, Instant.mk.injEq]
  exact ⟨hseconds.symm, hnanos.symm⟩

theorem assemble_local (l : LocalTime) (offset : Int) :
    assemble l.date l.hour l.minute l.sec l.fraction offset = some (l.instant offset) := by
  obtain ⟨hvalid, hday⟩ := Date.isDay_iff.1 l.isDay
  unfold assemble
  rw [if_pos ⟨hvalid, l.hour_ok, l.minute_ok, l.sec_ok⟩, hday]
  exact Instant.of?_self (l.isProper_instant offset)

/-- A text that is read spells a local time and an offset. -/
theorem Instant.exists_spells {text : String} {t : Instant} (h : ofText? text = some t) :
    ∃ l offset, Spells text l offset ∧ t = l.instant offset := by
  unfold ofText? at h
  obtain ⟨year, s₁, hyear, htext, h₁⟩ := readDigits_bind.1 h
  obtain ⟨c₁, s₂, hc₁, rfl, h₂⟩ := readChar_bind.1 h₁
  obtain ⟨month, s₃, -, rfl, h₃⟩ := readDigits_bind.1 h₂
  obtain ⟨c₂, s₄, hc₂, rfl, h₄⟩ := readChar_bind.1 h₃
  obtain ⟨day, s₅, -, rfl, h₅⟩ := readDigits_bind.1 h₄
  obtain ⟨separator, s₆, hseparator, rfl, h₆⟩ := readChar_bind.1 h₅
  obtain ⟨hour, s₇, -, rfl, h₇⟩ := readDigits_bind.1 h₆
  obtain ⟨c₃, s₈, hc₃, rfl, h₈⟩ := readChar_bind.1 h₇
  obtain ⟨minute, s₉, -, rfl, h₉⟩ := readDigits_bind.1 h₈
  obtain ⟨c₄, s₁₀, hc₄, rfl, h₁₀⟩ := readChar_bind.1 h₉
  obtain ⟨sec, s₁₁, -, rfl, h₁₁⟩ := readDigits_bind.1 h₁₀
  obtain ⟨⟨fraction, s₁₂⟩, hfraction, h₁₂⟩ := Option.bind_eq_some_iff.1 h₁₁
  obtain ⟨f, hf, rfl⟩ := readFraction_sound hfraction
  obtain ⟨⟨offset, s₁₃⟩, hoffset, h₁₃⟩ := Option.bind_eq_some_iff.1 h₁₂
  obtain ⟨z, hz, rfl⟩ := readOffset_eq_some_iff.1 hoffset
  obtain ⟨hend, h₁₄⟩ := Option.ite_none_right_eq_some.1 h₁₃
  rw [List.isEmpty_iff] at hend
  rw [beq_iff_eq] at hc₁ hc₂ hc₃ hc₄
  subst hend hc₁ hc₂ hc₃ hc₄
  obtain ⟨l, hdate, rfl, rfl, rfl, rfl, rfl⟩ := assemble_eq_some (by dsimp only; omega) hf.lt h₁₄
  refine ⟨l, offset, ⟨separator, f, z, ?_, hf, hz, ?_⟩, rfl⟩
  · simpa [or_assoc] using hseparator
  · rw [htext, LocalTime.text, hdate, Int.toNat_natCast]
    simp

/-- A text that spells a local time and an offset is read as their instant. -/
theorem Instant.ofText?_of_spells {text : String} {l : LocalTime} {offset : Int} (h : Spells text l offset) :
    ofText? text = some (l.instant offset) := by
  obtain ⟨separator, f, z, hseparator, hf, hz, htext⟩ := h
  obtain ⟨-, hmonth, -, hday⟩ := (Date.isDay_iff.1 l.isDay).1
  have hday31 := hday.trans (Date.daysInMonth_le_31 _ _)
  have hyear := l.year_ok
  have hcast : ((l.date.year.toNat : ℕ) : Int) = l.date.year := Int.toNat_of_nonneg hyear.1
  have hhour := l.hour_ok
  have hminute := l.minute_ok
  have hsec := l.sec_ok
  simp only [LocalTime.text, List.append_assoc, List.cons_append] at htext
  unfold ofText?
  refine readDigits_bind.2 ⟨l.date.year.toNat, _, by omega, htext, ?_⟩
  refine readChar_bind.2 ⟨'-', _, rfl, rfl, ?_⟩
  refine readDigits_bind.2 ⟨l.date.month, _, by omega, rfl, ?_⟩
  refine readChar_bind.2 ⟨'-', _, rfl, rfl, ?_⟩
  refine readDigits_bind.2 ⟨l.date.day, _, by omega, rfl, ?_⟩
  refine readChar_bind.2 ⟨separator, _, by simpa [or_assoc] using hseparator, rfl, ?_⟩
  refine readDigits_bind.2 ⟨l.hour, _, by omega, rfl, ?_⟩
  refine readChar_bind.2 ⟨':', _, rfl, rfl, ?_⟩
  refine readDigits_bind.2 ⟨l.minute, _, by omega, rfl, ?_⟩
  refine readChar_bind.2 ⟨':', _, rfl, rfl, ?_⟩
  refine readDigits_bind.2 ⟨l.sec, _, by omega, rfl, ?_⟩
  refine Option.bind_eq_some_iff.2 ⟨_, readFraction_append hf hz.noDigitFirst.1 hz.noDigitFirst.2, ?_⟩
  refine Option.bind_eq_some_iff.2 ⟨_, readOffset_eq_some_iff.2 ⟨z, hz, (List.append_nil z).symm⟩, ?_⟩
  show assemble ⟨(l.date.year.toNat : ℕ), l.date.month, l.date.day⟩ l.hour l.minute l.sec l.fraction offset = _
  rw [hcast]
  exact assemble_local l offset

/-- A text is read as the instant of the local time and the offset that it spells. -/
theorem Instant.ofText?_eq_some_iff {text : String} {t : Instant} :
    ofText? text = some t ↔ ∃ l offset, Spells text l offset ∧ t = l.instant offset := by
  constructor
  · exact exists_spells
  · rintro ⟨l, offset, h, rfl⟩
    exact ofText?_of_spells h

end ImageAssembly.Time
