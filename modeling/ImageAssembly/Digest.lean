import ImageAssembly.ErrorKind
import ImageAssembly.Feed
import ImageAssembly.Sha256
import ImageAssembly.Text.Cut

/-! Content digests: the name of a hash algorithm and a hash in hexadecimal, written
`algorithm:hex`. A digest is well formed by its type, so neither part can hold a path separator. -/

namespace ImageAssembly

/-- Runs of lower-case letters and digits with single separators between them. -/
def isAlgorithm (name : List Char) : Bool :=
  (Text.pieces (fun c => c == '+' || c == '.' || c == '_' || c == '-') name).all fun run =>
    !run.isEmpty && run.all fun c => c.isLower || c.isDigit

/-- A digit or a letter from `a` to `f`. -/
def isLowerHexDigit (c : Char) : Bool := ('0' ≤ c && c ≤ '9') || ('a' ≤ c && c ≤ 'f')

/-- A hash by its algorithm and its lower-case hexadecimal digits. -/
structure Digest where
  algorithm : String
  hex : String
  algorithm_ok : isAlgorithm algorithm.toList = true
  hex_ok : hex ≠ "" ∧ hex.toList.all isLowerHexDigit = true
  length_ok : algorithm = "sha256" → hex.toList.length = 64
  deriving DecidableEq

namespace Digest

/-- The algorithm of every digest that is computed here. -/
def sha256Name : String := "sha256"

/-- Why a text is no digest. -/
inductive Cause
  | noSeparator
  | emptyPart
  | badAlgorithm (name : String)
  | notHexadecimal
  | sha256Length
  deriving DecidableEq, Repr

/-- A refused text. -/
structure Fault where
  text : String
  cause : Cause
  deriving DecidableEq, Repr

def Cause.message : Cause → String
  | .noSeparator => "expected algorithm:hex"
  | .emptyPart => "empty algorithm or hex"
  | .badAlgorithm name => "bad algorithm '" ++ name ++ "'"
  | .notHexadecimal => "hex part is not hexadecimal"
  | .sha256Length => "sha256 digests have 64 hex characters"

def Fault.message (f : Fault) : String := "Invalid digest '" ++ f.text ++ "': " ++ f.cause.message

theorem isLowerHexDigit_toLower {c : Char} (h : Text.Hexadecimal.isDigit c = true) :
    isLowerHexDigit c.toLower = true :=
  @Text.of_ranges (fun c => isLowerHexDigit c.toLower = true) _ (by decide) c (Text.Hexadecimal.inRanges_of_isDigit h)

theorem all_map_toLower {hex : List Char} (h : hex.all Text.Hexadecimal.isDigit = true) :
    (hex.map Char.toLower).all isLowerHexDigit = true := by
  simp only [List.all_eq_true, List.mem_map] at h ⊢
  rintro _ ⟨c, hc, rfl⟩
  exact isLowerHexDigit_toLower (h c hc)

/-- Reads `algorithm:hex`; the digits may be of either case. -/
def parse (s : String) : Except Fault Digest :=
  match Text.cutFirst ':' s.toList with
  | none => .error ⟨s, .noSeparator⟩
  | some (algorithm, hex) =>
    if he : algorithm = [] ∨ hex = [] then .error ⟨s, .emptyPart⟩
    else if ha : isAlgorithm algorithm = true then
      if hh : hex.all Text.Hexadecimal.isDigit = true then
        if hl : String.ofList algorithm = "sha256" ∧ hex.length ≠ 64 then .error ⟨s, .sha256Length⟩
        else .ok {
          algorithm := String.ofList algorithm
          hex := String.ofList (hex.map Char.toLower)
          algorithm_ok := by simpa using ha
          hex_ok := ⟨by
              intro h
              have := congrArg String.toList h
              simp at this
              exact he (.inr this), by simpa using all_map_toLower hh⟩
          length_ok := fun h => by
            have := fun hn => hl ⟨h, hn⟩
            simpa using this }
      else .error ⟨s, .notHexadecimal⟩
    else .error ⟨s, .badAlgorithm (String.ofList algorithm)⟩

def toText (d : Digest) : String := d.algorithm ++ ":" ++ d.hex

theorem all_isLowerHexDigit_digits (c : Sha256.Chain) : c.digits.all isLowerHexDigit = true := by
  have key : ∀ n < 16, isLowerHexDigit (Text.Hexadecimal.digit n) = true := by decide
  refine List.all_eq_true.2 fun x hx => ?_
  obtain ⟨n, hn, rfl⟩ := Sha256.exists_digit_of_mem_digits hx
  exact key n hn

/-- The digest that a hash is the value of. -/
def ofChain (c : Sha256.Chain) : Digest where
  algorithm := sha256Name
  hex := String.ofList c.digits
  algorithm_ok := by decide
  hex_ok := ⟨by
      intro h
      have := congrArg (fun s => s.toList.length) h
      simp [Sha256.length_digits] at this, by simpa using all_isLowerHexDigit_digits c⟩
  length_ok _ := by simp [Sha256.length_digits]

/-- The digest of bytes. -/
def sha256 (data : ByteArray) : Digest := ofChain (Sha256.hash data)

/-- The digest and the number of all bytes that a source delivers. -/
def ofFeed {ε : Type} (feed : Feed ε) : Except ε (Digest × Nat) :=
  (feed.fold (fun h piece => h.update piece) Sha256.Hasher.start).map fun h =>
    (ofChain h.finish, h.length)

instance : Inhabited Digest := ⟨sha256 .empty⟩

end Digest

end ImageAssembly
