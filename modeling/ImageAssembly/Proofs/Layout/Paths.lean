import ImageAssembly.Image.Layout
import ImageAssembly.Proofs.Digest

/-! Where the paths of a layout lead. A path that is put together from the root of a layout and ordinary names leads
from the place of the root down along these names, whatever the files are. -/

namespace ImageAssembly

namespace Files

variable {fs : Files} {start p : Place} {names : List String}

/-- Whether a text names something in a directory, and neither the directory itself nor the one above. -/
structure IsName (name : String) : Prop where
  nonempty : name ≠ ""
  slash : '/' ∉ name.toList
  here : name ≠ "."
  above : name ≠ ".."

/-! ### Following names -/

theorem stepInto_of_isName {name : String} (h : IsName name) (place : Place) :
    stepInto place name = place ++ [name] := by
  rw [stepInto, if_neg (not_or.2 ⟨h.nonempty, h.here⟩), if_neg h.above]

theorem resolveFrom_append (fs : Files) (start : Place) (names more : List String) :
    fs.resolveFrom start (names ++ more) = (fs.resolveFrom start names).bind fun p => fs.resolveFrom p more := by
  induction names generalizing start with
  | nil => rfl
  | cons name names ih =>
    rw [List.cons_append, resolveFrom, resolveFrom]
    cases fs.entryAt? start with
    | none => rfl
    | some e => cases e with
      | file data => rfl
      | directory =>
        dsimp only
        split_ifs
        · rfl
        · exact ih _

/-- Names are followed down from a directory. -/
theorem resolveFrom_names (hnames : ∀ name ∈ names, IsName name) (h : fs.resolveFrom start names = .ok p) :
    p = start ++ names ∧ (names ≠ [] → fs.entryAt? start = some .directory) := by
  induction names generalizing start with
  | nil =>
    rw [resolveFrom, Except.ok.injEq] at h
    simp [h]
  | cons name names ih =>
    rw [resolveFrom] at h
    cases hs : fs.entryAt? start with
    | none => simp [hs] at h
    | some e => cases e with
      | file data => simp [hs] at h
      | directory =>
        simp only [hs] at h
        split_ifs at h
        rw [stepInto_of_isName (hnames name (by simp))] at h
        obtain ⟨hp, -⟩ := ih (fun n hn => hnames n (by simp [hn])) h
        exact ⟨by rw [hp, List.append_assoc]; rfl, fun _ => rfl⟩

/-! ### Paths below a directory -/

/-- The names of a path without a start. -/
def namesOf (path : String) : List String := (Text.pieces (· == '/') path.toList).map String.ofList

/-- Where a path starts that goes on behind a slash, and its names up to there. -/
def above (r : List Char) : Place × List String :=
  match Text.pieces (· == '/') r with
  | [] :: rest => (rootPlace, rest.map String.ofList)
  | names => ([], names.map String.ofList)

theorem splitPath_below {path rel : String} {r : List Char} (h : path.toList = r ++ '/' :: rel.toList) :
    splitPath path = ((above r).1, (above r).2 ++ namesOf rel) := by
  obtain ⟨p, ws, hp, -⟩ := Text.exists_pieces_eq (· == '/') r
  obtain ⟨q, vs, hq, -⟩ := Text.exists_pieces_eq (· == '/') rel.toList
  rw [splitPath, above, namesOf, h, Text.pieces_append_cons rfl, hp, hq]
  cases p with
  | nil => cases ws <;> simp
  | cons c p => simp

theorem splitPath_of_ne_nil {r : List Char} (h : r ≠ []) : splitPath (String.ofList r) = above r := by
  obtain ⟨p, ws, hp, hr, -⟩ := Text.exists_pieces_eq (· == '/') r
  rw [splitPath, above, String.toList_ofList, hp]
  cases p with
  | nil => cases ws with
    | nil => exact absurd hr h
    | cons w ws => rfl
  | cons c p => rfl

theorem checkPath_ok {path : String} {x : Place × List String} (h : checkPath path = .ok x) :
    '\x00' ∉ path.toList ∧ path ≠ "" ∧ path.utf8ByteSize < pathLimit ∧ x = splitPath path := by
  rw [checkPath] at h
  split_ifs at h with hzero hempty hlong
  exact ⟨hzero, hempty, Nat.lt_of_not_le hlong, (Except.ok.inj h).symm⟩

theorem resolve_ok {path : String} (h : fs.resolve path = .ok p) :
    checkPath path = .ok (splitPath path) ∧ fs.resolveFrom (splitPath path).1 (splitPath path).2 = .ok p := by
  rw [resolve] at h
  cases hc : checkPath path with
  | error fault => simp [hc, bind, Except.bind] at h
  | ok x =>
    obtain ⟨-, -, -, rfl⟩ := checkPath_ok hc
    simp only [hc, bind, Except.bind] at h
    exact ⟨rfl, h⟩

theorem resolve_of_checkPath {path : String} (h : checkPath path = .ok (splitPath path)) :
    fs.resolve path = fs.resolveFrom (splitPath path).1 (splitPath path).2 := by
  rw [resolve, h]
  rfl

/-- The beginning of a path can be a path if the whole can. -/
theorem checkPath_of_append {path rest : String} (h : checkPath (path ++ rest) = .ok (splitPath (path ++ rest)))
    (hne : path ≠ "") : checkPath path = .ok (splitPath path) := by
  obtain ⟨hzero, -, hlong, -⟩ := checkPath_ok h
  rw [String.toList_append, List.mem_append, not_or] at hzero
  rw [String.utf8ByteSize_append] at hlong
  rw [checkPath, if_neg hzero.1, if_neg hne, if_neg (by omega)]

theorem IsName.head?_ne {name : String} (h : IsName name) : name.toList.head? ≠ some '/' :=
  fun hs => h.slash (List.mem_of_head? hs)

theorem IsName.endsInSlash {name : String} (h : IsName name) : endsInSlash name = false := by
  rw [Files.endsInSlash, beq_eq_false_iff_ne]
  exact fun hs => h.slash (List.mem_of_getLast? hs)

end Files

namespace Layout

open Files

/-! ### Paths of a layout -/

/-- What stands before the names in a directory. -/
def below (root : String) : String := if root = "" then "" else if endsInSlash root then root else root ++ "/"

theorem join_eq {name : String} (root : String) (h : name.toList.head? ≠ some '/') :
    join root name = below root ++ name := by
  rw [join, below]
  by_cases hroot : root = ""
  · rw [if_pos (.inl hroot), if_pos hroot, String.empty_append]
  · rw [if_neg (not_or.2 ⟨hroot, h⟩), if_neg hroot]
    split_ifs <;> rfl

theorem below_append {name : String} (root : String) (h : IsName name) :
    below (root ++ name) = root ++ name ++ "/" := by
  have hne : root ++ name ≠ "" := by
    intro he
    exact h.nonempty (String.append_eq_empty_iff.1 he).2
  have hslash : endsInSlash (root ++ name) = false := by
    have hlast : (root ++ name).toList.getLast? = name.toList.getLast? := by
      rw [String.toList_append, List.getLast?_append_of_ne_nil _ fun hn => h.nonempty (String.toList_inj.1 hn)]
    rw [endsInSlash, hlast]
    exact h.endsInSlash
  rw [below, if_neg hne, hslash, if_neg (by simp)]

/-- A path below the root of a layout: one of what every layout has, or a blob. -/
inductive Inside (root : String) : String → Prop
  | required {name : String} (h : name ∈ requiredNames) : Inside root (join root name)
  | blob {algorithm hex : String} (ha : IsName algorithm) (hh : IsName hex) :
    Inside root (join root ("blobs/" ++ algorithm ++ "/" ++ hex))

theorem isName_of_mem_requiredNames {name : String} (h : name ∈ requiredNames) : IsName name := by
  have all : ∀ name ∈ requiredNames, name ≠ "" ∧ '/' ∉ name.toList ∧ name ≠ "." ∧ name ≠ ".." := by decide
  obtain ⟨h1, h2, h3, h4⟩ := all name h
  exact ⟨h1, h2, h3, h4⟩

theorem isName_algorithm (d : Digest) : IsName d.algorithm where
  nonempty h := ne_nil_of_isAlgorithm d.algorithm_ok (by rw [h]; rfl)
  slash h := absurd (mem_of_isAlgorithm d.algorithm_ok h) (by decide)
  here h := absurd d.algorithm_ok (by rw [h]; decide)
  above h := absurd d.algorithm_ok (by rw [h]; decide)

theorem isName_hex (d : Digest) : IsName d.hex where
  nonempty := d.hex_ok.1
  slash h := absurd (List.all_eq_true.1 d.hex_ok.2 _ h) (by decide)
  here h := absurd d.hex_ok.2 (by rw [h]; decide)
  above h := absurd d.hex_ok.2 (by rw [h]; decide)

/-- The parts of a digest are names, so that its blob is inside. -/
theorem inside_blobPath (root : String) (d : Digest) : Inside root (blobPath root d) := by
  have hblobs : IsName "blobs" := isName_of_mem_requiredNames (by decide)
  have hhead : ("blobs/" ++ d.algorithm ++ "/" ++ d.hex).toList.head? ≠ some '/' := by
    simp [String.toList_append]
  have heq : blobPath root d = join root ("blobs/" ++ d.algorithm ++ "/" ++ d.hex) := by
    rw [blobPath, join_eq _ (isName_hex d).head?_ne, join_eq _ (isName_algorithm d).head?_ne,
      join_eq _ hblobs.head?_ne, below_append _ (isName_algorithm d), below_append _ hblobs, join_eq _ hhead]
    simp only [String.append_assoc]
    rfl
  rw [heq]
  exact .blob (isName_algorithm d) (isName_hex d)

/-! ### Places -/

/-- The place of the root of a layout; without a name it is the working directory. -/
def rootOf (fs : Files) (root : String) : Except FileFault Place := if root = "" then .ok [] else fs.resolve root

/-- What stands before the names ends with a slash, behind which they go on where the path of the root ends. -/
theorem exists_below_eq {root : String} (h : root ≠ "") : ∃ r, (below root).toList = r ++ ['/'] ∧
    (root.toList = r ∧ r ≠ [] ∨ root.toList = r ++ ['/']) := by
  rw [below, if_neg h]
  split_ifs with hslash
  · obtain ⟨r, hr⟩ := List.getLast?_eq_some_iff.1 (beq_iff_eq.1 hslash)
    exact ⟨r, hr, .inr hr⟩
  · exact ⟨root.toList, String.toList_append, .inl ⟨rfl, fun hn => h (String.toList_inj.1 hn)⟩⟩

variable {fs : Files} {root rel : String} {base p : Place}

/-- A path that begins like one below it leads to the directory in which that one goes on. -/
theorem resolve_root {r : List Char} (hcheck : checkPath root = .ok (splitPath root))
    (hr : root.toList = r ∧ r ≠ [] ∨ root.toList = r ++ ['/'])
    (hbase : fs.resolveFrom (above r).1 (above r).2 = .ok base) (hdirectory : fs.entryAt? base = some .directory) :
    fs.resolve root = .ok base := by
  rw [resolve_of_checkPath hcheck]
  rcases hr with ⟨hr, hne⟩ | hr
  · rw [← String.ofList_toList (s := root), hr, splitPath_of_ne_nil hne, hbase]
  · have hempty : namesOf "" = [""] := rfl
    have hsplit := @splitPath_below root "" r (by rw [hr]; rfl)
    rw [hsplit, resolveFrom_append, hbase, hempty]
    simp only [Except.bind, resolveFrom, hdirectory]
    rfl

/-- From the place of the root a path leads down along its names. -/
theorem resolve_join (hnames : ∀ name ∈ namesOf rel, IsName name) (hhead : rel.toList.head? ≠ some '/')
    (h : fs.resolve (join root rel) = .ok p) : ∃ base, rootOf fs root = .ok base ∧ p = base ++ namesOf rel := by
  obtain ⟨q, ws, hq, -⟩ := Text.exists_pieces_eq (· == '/') rel.toList
  have hne : namesOf rel ≠ [] := by simp [namesOf, hq]
  rw [join_eq root hhead] at h
  obtain ⟨hcheck, hresolve⟩ := resolve_ok h
  rw [rootOf]
  split_ifs with hroot
  · have hfirst : q ≠ [] := by
      rintro rfl
      exact (hnames "" (by simp [namesOf, hq])).nonempty rfl
    have hsplit : splitPath (below root ++ rel) = ([], namesOf rel) := by
      rw [below, if_pos hroot, String.empty_append, splitPath, namesOf, hq]
      cases q with
      | nil => exact absurd rfl hfirst
      | cons c q => rfl
    rw [hsplit] at hresolve
    exact ⟨[], rfl, (resolveFrom_names hnames hresolve).1⟩
  · obtain ⟨r, hbelow, hr⟩ := exists_below_eq hroot
    have hpath : (below root ++ rel).toList = r ++ '/' :: rel.toList := by
      rw [String.toList_append, hbelow, List.append_assoc]
      rfl
    have hrest : ∃ rest, below root ++ rel = root ++ rest := by
      rw [below, if_neg hroot]
      split_ifs
      · exact ⟨rel, rfl⟩
      · exact ⟨"/" ++ rel, String.append_assoc⟩
    obtain ⟨rest, hrest⟩ := hrest
    rw [splitPath_below hpath, resolveFrom_append] at hresolve
    cases hbase : fs.resolveFrom (above r).1 (above r).2 with
    | error fault => simp [hbase, Except.bind] at hresolve
    | ok base =>
      rw [hbase] at hresolve
      obtain ⟨hp, hdirectory⟩ := resolveFrom_names hnames hresolve
      rw [hrest] at hcheck
      exact ⟨base, resolve_root (checkPath_of_append hcheck hroot) hr hbase (hdirectory hne), hp⟩

theorem namesOf_of_isName {name : String} (h : IsName name) : namesOf name = [name] := by
  have hpieces : Text.pieces (· == '/') name.toList = [name.toList] := by
    refine Text.pieces_of_forall fun c hc => beq_false_of_ne ?_
    rintro rfl
    exact h.slash hc
  rw [namesOf, hpieces, List.map_singleton, String.ofList_toList]

theorem namesOf_append {a b : String} : namesOf (a ++ "/" ++ b) = namesOf a ++ namesOf b := by
  have hlist : (a ++ "/" ++ b).toList = a.toList ++ '/' :: b.toList := by
    rw [String.toList_append, String.toList_append, List.append_assoc]
    rfl
  rw [namesOf, hlist, Text.pieces_append_cons rfl, List.map_append, namesOf, namesOf]

/-- A path below the root of a layout leads to a place below that of the root, by one name or by three. -/
theorem place_of_inside {path : String} (h : Inside root path) (hp : fs.resolve path = .ok p) :
    ∃ base names, rootOf fs root = .ok base ∧ p = base ++ names ∧ ((∃ name ∈ requiredNames, names = [name]) ∨
      ∃ algorithm hex, IsName algorithm ∧ IsName hex ∧ names = ["blobs", algorithm, hex]) := by
  cases h with
  | @required name h =>
    have hname := isName_of_mem_requiredNames h
    have hnames := namesOf_of_isName hname
    obtain ⟨base, hbase, hp⟩ := resolve_join (by simpa [hnames] using hname) hname.head?_ne hp
    exact ⟨base, [name], hbase, hnames ▸ hp, .inl ⟨name, h, rfl⟩⟩
  | @blob algorithm hex ha hh =>
    have hblobs : IsName "blobs" := isName_of_mem_requiredNames (by decide)
    have hnames : namesOf ("blobs/" ++ algorithm ++ "/" ++ hex) = ["blobs", algorithm, hex] := by
      have hsplit : "blobs/" = "blobs" ++ "/" := rfl
      rw [namesOf_append, hsplit, namesOf_append, namesOf_of_isName hblobs, namesOf_of_isName ha, namesOf_of_isName hh]
      rfl
    have hall : ∀ name ∈ namesOf ("blobs/" ++ algorithm ++ "/" ++ hex), IsName name := by simp [hnames, hblobs, ha, hh]
    obtain ⟨base, hbase, hp⟩ := resolve_join hall (by simp [String.toList_append]) hp
    exact ⟨base, _, hbase, hnames ▸ hp, .inr ⟨algorithm, hex, ha, hh, rfl⟩⟩

end Layout

end ImageAssembly
