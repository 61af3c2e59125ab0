import ImageAssembly.Error
import ImageAssembly.Proofs.Tag.Expressions

/-! The grammar of references. A reference is taken apart into the components of its name and its tag; the main
statement says that a text is read just if it is put together of well-formed parts, and what name it then gives. -/

namespace ImageAssembly

theorem Text.pieces_eq_splitOn (sep : Char) (s : List Char) : pieces (· == sep) s = s.splitOn sep := by
  induction s with
  | nil => rfl
  | cons c s ih =>
    rw [pieces, List.splitOn_cons_eq_if_modifyHead, ih]
    split_ifs with hc
    · rfl
    · obtain ⟨p, ps, hps⟩ := List.exists_cons_of_ne_nil (List.splitOn_ne_nil sep s)
      rw [hps]
      rfl

theorem Text.mem_intercalate {sep c : Char} {parts : List (List Char)} (h : c ∈ [sep].intercalate parts) :
    c = sep ∨ ∃ p ∈ parts, c ∈ p := by
  induction parts with
  | nil => cases h
  | cons p parts ih =>
    cases parts with
    | nil => exact .inr ⟨p, by simp, by simpa using h⟩
    | cons q parts =>
      rw [List.intercalate_cons_cons, List.mem_append, List.mem_append, List.mem_singleton] at h
      rcases h with (h | h) | h
      · exact .inr ⟨p, by simp, h⟩
      · exact .inl h
      · obtain hsep | ⟨u, hu, hc⟩ := ih h
        · exact .inl hsep
        · exact .inr ⟨u, by simp [hu], hc⟩

/-- What stands behind the last separator goes on to the end. -/
theorem Text.cutLast_append_of_not_mem {sep : Char} {t : List Char} (s : List Char) (h : sep ∉ t) :
    cutLast sep (s ++ t) = (cutLast sep s).map fun (a, b) => (a, b ++ t) := by
  cases hcut : cutLast sep s with
  | none => exact cutLast_eq_none.2 (by simp [cutLast_eq_none.1 hcut, h])
  | some parts =>
    obtain ⟨a, b⟩ := parts
    obtain ⟨rfl, hb⟩ := cutLast_eq_some hcut
    rw [List.append_assoc, List.cons_append]
    exact cutLast_append a (by simp [hb, h])

theorem Text.length_splitOn_eq_one {sep : Char} {s : List Char} : (s.splitOn sep).length = 1 ↔ sep ∉ s := by
  constructor
  · intro h hmem
    obtain ⟨a, b, rfl⟩ := List.append_of_mem hmem
    rw [List.splitOn_append_cons_self, List.length_append] at h
    have ha := List.length_pos_of_ne_nil (List.splitOn_ne_nil sep a)
    have hb := List.length_pos_of_ne_nil (List.splitOn_ne_nil sep b)
    omega
  · intro h
    rw [List.splitOn_eq_singleton h]
    rfl

namespace Tag

/-! ### References -/

/-- A reference, taken apart: the components of its name, and the tag if one is given. -/
structure Reference where
  components : List (List Char)
  tag : Option (List Char)

namespace Reference

/-- Whether the first of several components can only be a registry. -/
def Hosted : List (List Char) → Prop
  | first :: _ :: _ => '.' ∈ first ∨ ':' ∈ first ∨ first = "localhost".toList
  | _ => False

instance : DecidablePred Hosted
  | _ :: _ :: _ => inferInstanceAs (Decidable (_ ∨ _ ∨ _))
  | [_] | [] => inferInstanceAs (Decidable False)

/-- The registry that components name. -/
def registryOf (components : List (List Char)) : List Char :=
  if Hosted components then components.headD [] else defaultRegistry.toList

/-- The components of the repository. -/
def pathOf (components : List (List Char)) : List (List Char) :=
  if Hosted components then components.tail else components

/-- The repository: a single component on the default registry stands in its library. -/
def repositoryOf (components : List (List Char)) : List Char :=
  if registryOf components = defaultRegistry.toList ∧ (pathOf components).length = 1 then
    "library/".toList ++ ['/'].intercalate (pathOf components)
  else ['/'].intercalate (pathOf components)

/-- Whether the parts of a reference match their expressions. -/
structure WellFormed (r : Reference) : Prop where
  ne_nil : r.components ≠ []
  registry : Hosted r.components → r.components.headD [] ∈ registryExpression.matches'
  path : ∀ c ∈ pathOf r.components, c ∈ componentExpression.matches'
  tag : ∀ t, r.tag = some t → t ∈ tagExpression.matches'

/-- The components with slashes between them, and the tag behind a colon. -/
def text (r : Reference) : List Char := ['/'].intercalate r.components ++ (r.tag.map (':' :: ·)).getD []

/-- The name that a reference stands for. -/
def name (r : Reference) : Tag :=
  ⟨String.ofList (registryOf r.components), String.ofList (repositoryOf r.components),
    String.ofList (r.tag.getD defaultTag.toList)⟩

end Reference

open Reference

/-! ### Names without tags -/

/-- What is done with a repository once its registry is known. -/
def checkRepository (registry : String) (repository : List Char) : Except Cause (String × String) := do
  if repository.isEmpty then throw .emptyRepository
  checkComponents (Text.pieces (· == '/') repository)
  pure (registry, String.ofList (if registry = defaultRegistry ∧ '/' ∉ repository then
    "library/".toList ++ repository else repository))

theorem splitName_eq (name : List Char) : splitName name = match Text.cutFirst '/' name with
    | some (first, rest) =>
      if looksLikeHost first then do
        checkRegistry first
        checkRepository (String.ofList first) rest
      else checkRepository defaultRegistry name
    | none => checkRepository defaultRegistry name := by
  rw [splitName]
  cases Text.cutFirst '/' name with
  | none => rfl
  | some parts =>
    obtain ⟨first, rest⟩ := parts
    dsimp only
    split_ifs with h
    · cases checkRegistry first <;> rfl
    · rfl

theorem checkComponents_eq_ok {cs : List (List Char)} :
    checkComponents cs = .ok () ↔ ∀ c ∈ cs, c ∈ componentExpression.matches' := by
  induction cs with
  | nil => simp [checkComponents]
  | cons c cs ih =>
    rw [checkComponents, List.forall_mem_cons, ← isComponent_iff]
    split_ifs with hc
    · simp [ih, hc]
    · simp [hc]

theorem checkRepository_eq_ok {components : List (List Char)} {repository : List Char} {x : String × String}
    (h : repository.splitOn '/' = pathOf components) :
    checkRepository (String.ofList (registryOf components)) repository = .ok x ↔
      (∀ c ∈ pathOf components, c ∈ componentExpression.matches') ∧
        x = (String.ofList (registryOf components), String.ofList (repositoryOf components)) := by
  have hregistry : String.ofList (registryOf components) = defaultRegistry ↔
      registryOf components = defaultRegistry.toList := by
    rw [← String.toList_inj, String.toList_ofList]
  have hrepository : ['/'].intercalate (pathOf components) = repository := by
    rw [← h, List.intercalate_splitOn]
  simp only [checkRepository, Text.pieces_eq_splitOn, repositoryOf, hregistry, ← Text.length_splitOn_eq_one, h,
    hrepository]
  generalize (if registryOf components = defaultRegistry.toList ∧ (pathOf components).length = 1 then
    "library/".toList ++ repository else repository) = full
  by_cases hempty : repository = []
  · subst hempty
    refine iff_of_false nofun fun hall => nil_not_mem_componentExpression (hall.1 [] ?_)
    rw [← h]
    simp
  · rw [← checkComponents_eq_ok, if_neg (by simpa using hempty)]
    cases checkComponents (pathOf components) with
    | error cause => simp [bind, Except.bind]
    | ok u => simp [bind, Except.bind, pure, Except.pure, eq_comm]

theorem checkRepository_default {name : List Char} {x : String × String} (h : ¬Hosted (name.splitOn '/')) :
    checkRepository defaultRegistry name = .ok x ↔
      (∀ c ∈ pathOf (name.splitOn '/'), c ∈ componentExpression.matches') ∧
        x = (String.ofList (registryOf (name.splitOn '/')), String.ofList (repositoryOf (name.splitOn '/'))) := by
  have hpath : pathOf (name.splitOn '/') = name.splitOn '/' := if_neg h
  have hregistry : String.ofList (registryOf (name.splitOn '/')) = defaultRegistry := by
    rw [registryOf, if_neg h, String.ofList_toList]
  rw [← checkRepository_eq_ok hpath.symm, hregistry]

theorem looksLikeHost_iff {first second : List Char} {rest : List (List Char)} :
    looksLikeHost first = true ↔ Hosted (first :: second :: rest) := by
  simp [looksLikeHost, Hosted, or_assoc]

/-- A name is accepted just if its components are well formed, and it is divided where they say. -/
theorem splitName_eq_ok {name : List Char} {x : String × String} : splitName name = .ok x ↔
    (Hosted (name.splitOn '/') → (name.splitOn '/').headD [] ∈ registryExpression.matches') ∧
      (∀ c ∈ pathOf (name.splitOn '/'), c ∈ componentExpression.matches') ∧
      x = (String.ofList (registryOf (name.splitOn '/')), String.ofList (repositoryOf (name.splitOn '/'))) := by
  rw [splitName_eq]
  cases hcut : Text.cutFirst '/' name with
  | none =>
    have hhosted : ¬Hosted (name.splitOn '/') := by
      rw [List.splitOn_eq_singleton (Text.cutFirst_eq_none.1 hcut)]
      exact id
    exact (checkRepository_default hhosted).trans (and_iff_right fun h => absurd h hhosted).symm
  | some parts =>
    obtain ⟨first, rest⟩ := parts
    obtain ⟨rfl, hfirst⟩ := Text.cutFirst_eq_some hcut
    obtain ⟨second, others, hrest⟩ := List.exists_cons_of_ne_nil (List.splitOn_ne_nil '/' rest)
    have hname : (first ++ '/' :: rest).splitOn '/' = first :: second :: others := by
      rw [List.splitOn_append_cons_self_of_not_mem hfirst, hrest]
    dsimp only
    by_cases hhosted : Hosted (first :: second :: others)
    · have hregistry : registryOf (first :: second :: others) = first := if_pos hhosted
      have hpath : pathOf (first :: second :: others) = second :: others := if_pos hhosted
      have hrepository := @checkRepository_eq_ok _ rest x (hrest.trans hpath.symm)
      rw [hname, if_pos (looksLikeHost_iff.2 hhosted), ← hrepository, hregistry, List.headD_cons, ← checkRegistry_eq_ok]
      cases checkRegistry first with
      | error cause => exact iff_of_false nofun fun h => absurd (h.1 hhosted) nofun
      | ok u => exact (and_iff_right fun _ => rfl).symm
    · rw [if_neg (fun h => hhosted (looksLikeHost_iff.1 h))]
      rw [← hname] at hhosted
      exact (checkRepository_default hhosted).trans (and_iff_right fun h => absurd h hhosted).symm

/-! ### References with tags -/

/-- A reference is cut at its last colon if no slash follows it, or not at all. -/
theorem exists_splitReference (reference : List Char) : ∃ (name : List Char) (tag : Option (List Char)),
    reference = name ++ (tag.map (':' :: ·)).getD [] ∧
      splitReference reference = (name, tag.getD defaultTag.toList) := by
  rw [splitReference]
  cases hcut : Text.cutLast ':' reference with
  | none => exact ⟨reference, none, (List.append_nil _).symm, rfl⟩
  | some parts =>
    obtain ⟨name, tag⟩ := parts
    dsimp only
    split_ifs
    · exact ⟨reference, none, (List.append_nil _).symm, rfl⟩
    · exact ⟨name, some tag, (Text.cutLast_eq_some hcut).1, rfl⟩

theorem checkTag_defaultTag : checkTag defaultTag.toList = .ok () := by decide

theorem parseParts_eq_ok {reference : List Char} {t : Tag} : parseParts reference = .ok t ↔
    reference ≠ [] ∧ '@' ∉ reference ∧ checkTag (splitReference reference).2 = .ok () ∧
      splitName (splitReference reference).1 = .ok (t.registry, t.repository) ∧
      t.tag = String.ofList (splitReference reference).2 := by
  rw [parseParts]
  by_cases hempty : reference = []
  · subst hempty
    exact iff_of_false nofun fun h => h.1 rfl
  · by_cases hat : '@' ∈ reference
    · rw [if_neg (by simpa using hempty), if_pos hat]
      exact iff_of_false nofun fun h => h.2.1 hat
    · rw [if_neg (by simpa using hempty), if_neg hat]
      dsimp only
      cases checkTag (splitReference reference).2 with
      | error cause => exact iff_of_false nofun fun h => absurd h.2.2.1 nofun
      | ok u =>
        cases splitName (splitReference reference).1 with
        | error cause => exact iff_of_false nofun fun h => absurd h.2.2.2.1 nofun
        | ok x =>
          obtain ⟨registry, repository⟩ := x
          obtain ⟨registry', repository', tag⟩ := t
          simp [hempty, hat, bind, Except.bind, pure, Except.pure, and_assoc, eq_comm]

namespace Reference

variable {r : Reference}

theorem WellFormed.forall_component (h : r.WellFormed) :
    ∀ c ∈ r.components, c ∈ componentExpression.matches' ∨ c ∈ registryExpression.matches' := by
  intro c hc
  by_cases hhosted : Hosted r.components
  · obtain ⟨first, rest, hcomponents⟩ := List.exists_cons_of_ne_nil h.ne_nil
    have hregistry := h.registry hhosted
    have hpath := h.path
    rw [pathOf, if_pos hhosted] at hpath
    rw [hcomponents] at hc hregistry hpath
    rcases List.mem_cons.1 hc with rfl | hc
    · exact .inr hregistry
    · exact .inl (hpath c hc)
  · have hpath := h.path
    rw [pathOf, if_neg hhosted] at hpath
    exact .inl (hpath c hc)

theorem WellFormed.slash_not_mem (h : r.WellFormed) : ∀ c ∈ r.components, '/' ∉ c := fun c hc =>
  (h.forall_component c hc).elim (fun h => not_mem_of_componentExpression h _ (by simp))
    fun h => not_mem_of_registryExpression h _ (by simp)

theorem WellFormed.at_not_mem (h : r.WellFormed) : '@' ∉ r.text := by
  intro hat
  rcases List.mem_append.1 hat with hat | hat
  · obtain hsep | ⟨c, hc, hat⟩ := Text.mem_intercalate hat
    · exact absurd hsep (by decide)
    · rcases h.forall_component c hc with h | h
      · exact not_mem_of_componentExpression h _ (by simp) hat
      · exact not_mem_of_registryExpression h _ (by simp) hat
  · cases htag : r.tag with
    | none => simp [htag] at hat
    | some tag =>
      refine not_mem_of_tagExpression (h.tag tag htag) '@' (by simp) ?_
      simpa [htag] using hat

theorem WellFormed.splitOn_intercalate (h : r.WellFormed) :
    (['/'].intercalate r.components).splitOn '/' = r.components :=
  List.splitOn_intercalate '/' h.slash_not_mem h.ne_nil

theorem WellFormed.text_ne_nil (h : r.WellFormed) : r.text ≠ [] := by
  intro htext
  have hcomponents := h.splitOn_intercalate
  rw [(List.append_eq_nil_iff.1 htext).1, List.splitOn_nil] at hcomponents
  have hpath := h.path
  rw [← hcomponents] at hpath
  exact nil_not_mem_componentExpression (hpath [] (by simp [pathOf, Hosted]))

theorem WellFormed.colon_not_mem_path (h : r.WellFormed) : ':' ∉ ['/'].intercalate (pathOf r.components) := by
  intro hmem
  obtain hsep | ⟨c, hc, hcolon⟩ := Text.mem_intercalate hmem
  · exact absurd hsep (by decide)
  · exact not_mem_of_componentExpression (h.path c hc) ':' (by simp) hcolon

/-- A colon in a name belongs to the registry, so that a slash follows it. -/
theorem WellFormed.splitReference_text (h : r.WellFormed) :
    splitReference r.text = (['/'].intercalate r.components, r.tag.getD defaultTag.toList) := by
  cases htag : r.tag with
  | some tag =>
    have hnone := not_mem_of_tagExpression (h.tag tag htag)
    have htext : r.text = ['/'].intercalate r.components ++ ':' :: tag := by simp [text, htag]
    rw [htext, splitReference, Text.cutLast_append _ (hnone ':' (by simp))]
    exact if_neg (hnone '/' (by simp))
  | none =>
    have htext : r.text = ['/'].intercalate r.components := by simp [text, htag]
    have hcolon := h.colon_not_mem_path
    rw [htext, splitReference]
    by_cases hhosted : Hosted r.components
    · obtain ⟨host, second, others, hcomponents⟩ : ∃ host second others, r.components = host :: second :: others := by
        match r.components, hhosted with
        | host :: second :: others, _ => exact ⟨host, second, others, rfl⟩
      have hname : ['/'].intercalate r.components = host ++ '/' :: ['/'].intercalate (pathOf r.components) := by
        rw [pathOf, if_pos hhosted, hcomponents, List.intercalate_cons_cons, List.append_assoc]
        rfl
      rw [hname, Text.cutLast_append_of_not_mem host (by simp [hcolon])]
      cases Text.cutLast ':' host <;> simp
    · rw [pathOf, if_neg hhosted] at hcolon
      rw [Text.cutLast_eq_none.2 hcolon]
      rfl

theorem WellFormed.parse (h : r.WellFormed) : parseParts r.text = .ok r.name := by
  have hsplit := h.splitReference_text
  refine parseParts_eq_ok.2 ⟨h.text_ne_nil, h.at_not_mem, ?_, ?_, ?_⟩
  · rw [hsplit]
    cases htag : r.tag with
    | none => exact checkTag_defaultTag
    | some tag => exact checkTag_eq_ok.2 (h.tag tag htag)
  · rw [hsplit, splitName_eq_ok, h.splitOn_intercalate]
    exact ⟨h.registry, h.path, rfl⟩
  · rw [hsplit]
    rfl

theorem exists_of_parse {reference : List Char} {t : Tag} (h : parseParts reference = .ok t) :
    ∃ r : Reference, r.WellFormed ∧ r.text = reference ∧ r.name = t := by
  obtain ⟨-, -, htag, hname, htext⟩ := parseParts_eq_ok.1 h
  obtain ⟨name, tag, hreference, hsplit⟩ := exists_splitReference reference
  rw [hsplit] at htag hname htext
  obtain ⟨hregistry, hpath, hparts⟩ := splitName_eq_ok.1 hname
  obtain ⟨hregistryText, hrepositoryText⟩ := Prod.mk.inj hparts
  refine ⟨⟨name.splitOn '/', tag⟩, ⟨List.splitOn_ne_nil '/' name, hregistry, hpath, ?_⟩, ?_, ?_⟩
  · rintro t rfl
    exact checkTag_eq_ok.1 htag
  · rw [text, List.intercalate_splitOn, hreference]
  · obtain ⟨registry, repository, tagText⟩ := t
    dsimp only at hregistryText hrepositoryText htext
    rw [hregistryText, hrepositoryText, htext]
    rfl

end Reference

theorem parse_eq_ok {reference : String} {t : Tag} :
    parse reference = .ok t ↔ parseParts reference.toList = .ok t := by
  rw [parse]
  cases parseParts reference.toList <;> simp [Except.mapError]

/-- A text is read as an image name just if it is a reference of well-formed parts, and the name is the one that
the parts stand for. Every other text is refused by an error that carries it, as is any text with an at sign. -/
theorem parse_iff_wellFormed (reference : String) :
    (∀ t, parse reference = .ok t ↔ ∃ r : Reference, r.WellFormed ∧ r.text = reference.toList ∧ r.name = t) ∧
      ((∃ fault, parse reference = .error fault ∧ (Error.tag fault).kind = .invalidTag reference) ↔
        ¬∃ r : Reference, r.WellFormed ∧ r.text = reference.toList) ∧
      ('@' ∈ reference.toList →
        ∃ fault, parse reference = .error fault ∧ (Error.tag fault).kind = .invalidTag reference) := by
  have haccepted : ∀ t, parse reference = .ok t ↔
      ∃ r : Reference, r.WellFormed ∧ r.text = reference.toList ∧ r.name = t := by
    intro t
    rw [parse_eq_ok]
    constructor
    · exact exists_of_parse
    · rintro ⟨r, hr, htext, rfl⟩
      rw [← htext]
      exact hr.parse
  have hrefused : (¬∃ r : Reference, r.WellFormed ∧ r.text = reference.toList) →
      ∃ fault, parse reference = .error fault ∧ (Error.tag fault).kind = .invalidTag reference := by
    intro hnone
    cases hparts : parseParts reference.toList with
    | ok t =>
      obtain ⟨r, hr, htext, -⟩ := (haccepted t).1 (parse_eq_ok.2 hparts)
      exact absurd ⟨r, hr, htext⟩ hnone
    | error cause => exact ⟨⟨reference, cause⟩, by rw [parse, hparts]; rfl, rfl⟩
  refine ⟨haccepted, ⟨?_, hrefused⟩, fun hat => hrefused ?_⟩
  · rintro ⟨fault, hfault, -⟩ ⟨r, hr, htext⟩
    rw [(haccepted r.name).2 ⟨r, hr, htext, rfl⟩] at hfault
    cases hfault
  · rintro ⟨r, hr, htext⟩
    exact hr.at_not_mem (htext ▸ hat)

/-- A name with the port of its registry, and a name with a digest. -/
theorem port_and_digest :
    (∃ r : Reference, r.WellFormed ∧ r.text = "localhost:5000/app".toList ∧
      r.name = ⟨"localhost:5000", "app", "latest"⟩) ∧
    ∃ fault, parse "app@sha256:00" = .error fault ∧ (Error.tag fault).kind = .invalidTag "app@sha256:00" :=
  ⟨((parse_iff_wellFormed "localhost:5000/app").1 _).1 (by decide +kernel),
    (parse_iff_wellFormed "app@sha256:00").2.2 (by decide)⟩

/-- Without a slash behind it the number is a tag. -/
example : parse "localhost:5000" = .ok ⟨"index.docker.io", "library/localhost", "5000"⟩ := by decide +kernel

end Tag

end ImageAssembly
