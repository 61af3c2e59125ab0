import ImageAssembly.Proofs.Text.Trimming
import ImageAssembly.Proofs.Time.Counting
import ImageAssembly.Proofs.Time.Rereading
import ImageAssembly.Time.SourceDate

/-! The build timestamp from the decimal text of a count of seconds. The counts whose years have four digits lie
far within those that a timestamp can name, so that each is read as the second that it counts. -/

namespace ImageAssembly.Time

open Digits
open Text.Integer (bound signed signed_toString toList_toString)

/-! ### The seconds of plain years -/

namespace Instant

/-- The seconds whose years have four digits, from the beginning of the year 0 to the end of the year 9999. -/
theorem hasPlainYear_iff {t : Instant} :
    t.HasPlainYear ↔ -62167219200 ≤ t.seconds ∧ t.seconds < 253402300800 := by
  have hvalid : t.date.IsValid := Date.isValid_ofDayNumber _
  have hday : t.date.dayNumber = t.seconds / 86400 := Date.dayNumber_ofDayNumber _
  have hfirst : Date.dayNumber ⟨0, 1, 1⟩ = -719528 := by decide
  have hlast : Date.dayNumber ⟨10000, 1, 1⟩ = 2932897 := by decide
  have hlow := @Date.le_year_iff _ hvalid 0
  have hhigh := @Date.le_year_iff _ hvalid 10000
  rw [hday, hfirst] at hlow
  rw [hday, hlast] at hhigh
  unfold HasPlainYear
  omega

theorem truncate_ofSeconds (n : Int) : (ofSeconds n).truncate = ofSeconds n := rfl

theorem isProper_ofSeconds (n : Int) : (ofSeconds n).IsProper := .inl (show 0 < second by decide)

theorem ofSeconds?_of_hasPlainYear {n : Int} (h : (ofSeconds n).HasPlainYear) : ofSeconds? n = some (ofSeconds n) := by
  have hbounds : -62167219200 ≤ n ∧ n < 253402300800 := hasPlainYear_iff.1 h
  have hfirst : firstSecond ≤ -62167219200 := by decide
  have hlast : 253402300800 ≤ lastSecond := by decide
  exact if_pos (by omega)

end Instant

/-! ### Decimal texts -/

theorem isBlank_digitChar : ∀ d < 10, Text.isBlank (Nat.digitChar d) = false := by decide

theorem isBlank_of_mem_toDigits {n : Nat} {c : Char} (h : c ∈ Nat.toDigits 10 n) : Text.isBlank c = false := by
  rw [toDigits_eq_map] at h
  obtain ⟨d, hd, rfl⟩ := List.mem_map.1 h
  exact isBlank_digitChar d (lt_of_mem_decimalDigits hd)

theorem isBlank_of_mem_toString {n : Int} {c : Char} (h : c ∈ (toString n).toList) : Text.isBlank c = false := by
  rw [toList_toString] at h
  split_ifs at h
  · rcases List.mem_cons.1 h with rfl | h
    · rfl
    · exact isBlank_of_mem_toDigits h
  · exact isBlank_of_mem_toDigits h

/-- The decimal text of a count of seconds of a plain year is read as the second it counts. -/
theorem SourceDate.read_toString {n : Int} (h : (Instant.ofSeconds n).HasPlainYear) :
    SourceDate.read (some (toString n)) = .ok (.ofSeconds n) := by
  have hbounds : -62167219200 ≤ n ∧ n < 253402300800 := Instant.hasPlainYear_iff.1 h
  have htrim : Text.trim (toString n) = toString n := by
    apply Text.trim_eq_self_iff.2
    exact ⟨fun c hc => isBlank_of_mem_toString (List.mem_of_mem_head? hc),
      fun c hc => isBlank_of_mem_toString (List.mem_of_mem_getLast? hc)⟩
  have hbound : bound (64 - 1) = 9223372036854775808 := rfl
  have hsigned : signed 64 (toString n).toList = .ok n := signed_toString (by omega) (by omega)
  have hne : toString n ≠ "" := by
    intro hempty
    rw [hempty] at hsigned
    cases hsigned
  unfold SourceDate.read
  simp only [Option.getD_some, htrim, if_neg hne, hsigned, Instant.ofSeconds?_of_hasPlainYear h]

end ImageAssembly.Time
