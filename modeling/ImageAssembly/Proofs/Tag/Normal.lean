import ImageAssembly.Proofs.Export.Rewriting
import ImageAssembly.Proofs.Tag.Grammar

/-! Names in full. The text of a name is itself a reference, in which nothing is left out: it is taken apart at the
same slashes and the same colon, and stands for the name that it is the text of. -/

namespace ImageAssembly.Tag

open Reference

namespace Reference

variable {components : List (List Char)} {r : Reference}

/-! ### Components in full -/

/-- The components of the repository, that of the library among them. -/
def fullPathOf (components : List (List Char)) : List (List Char) :=
  if registryOf components = defaultRegistry.toList ∧ (pathOf components).length = 1 then
    "library".toList :: pathOf components
  else pathOf components

/-- The reference in which nothing is left out. -/
def full (r : Reference) : Reference :=
  ⟨registryOf r.components :: fullPathOf r.components, some (r.tag.getD defaultTag.toList)⟩

/-- The registry stands in front of other components. -/
theorem Hosted.exists_cons (h : Hosted components) :
    ∃ first second others, components = first :: second :: others := by
  rcases components with _ | ⟨first, _ | ⟨second, others⟩⟩
  · exact h.elim
  · exact h.elim
  · exact ⟨first, second, others, rfl⟩

theorem pathOf_ne_nil (h : components ≠ []) : pathOf components ≠ [] := by
  rw [pathOf]
  split_ifs with hhosted
  · obtain ⟨first, second, others, rfl⟩ := hhosted.exists_cons
    exact List.cons_ne_nil second others
  · exact h

theorem fullPathOf_ne_nil (h : components ≠ []) : fullPathOf components ≠ [] := by
  rw [fullPathOf]
  split_ifs
  · simp
  · exact pathOf_ne_nil h

theorem repositoryOf_eq (h : components ≠ []) :
    repositoryOf components = ['/'].intercalate (fullPathOf components) := by
  rw [repositoryOf, fullPathOf]
  split_ifs
  · rw [List.intercalate_cons_of_ne_nil (pathOf_ne_nil h)]
    simp
  · rfl

/-- A repository in full does not stand in the library once more. -/
theorem not_single_fullPathOf (components : List (List Char)) :
    ¬(registryOf components = defaultRegistry.toList ∧ (fullPathOf components).length = 1) := by
  rintro ⟨hregistry, hlength⟩
  rw [fullPathOf] at hlength
  split_ifs at hlength with h
  · rw [List.length_cons, h.2] at hlength
    exact absurd hlength (by decide)
  · exact h ⟨hregistry, hlength⟩

/-! ### The full reference -/

/-- The registry of a name can only be a registry where it stands in front of others. -/
theorem hosted_full (h : r.components ≠ []) : Hosted r.full.components := by
  obtain ⟨second, others, hpath⟩ := List.exists_cons_of_ne_nil (fullPathOf_ne_nil h)
  rw [full, hpath, registryOf]
  split_ifs with hhosted
  · obtain ⟨first, next, rest, hcomponents⟩ := hhosted.exists_cons
    rw [hcomponents] at hhosted ⊢
    exact hhosted
  · exact .inl (by decide)

theorem registryOf_full (h : r.components ≠ []) : registryOf r.full.components = registryOf r.components :=
  if_pos (hosted_full h)

theorem pathOf_full (h : r.components ≠ []) : pathOf r.full.components = fullPathOf r.components :=
  if_pos (hosted_full h)

theorem registryOf_mem (h : r.WellFormed) : registryOf r.components ∈ registryExpression.matches' := by
  rw [registryOf]
  split_ifs with hhosted
  · exact h.registry hhosted
  · exact checkRegistry_eq_ok.1 (by decide)

theorem library_mem : "library".toList ∈ componentExpression.matches' := by
  have hcomponent : isComponent "library".toList = true := by decide +kernel
  exact isComponent_iff.1 hcomponent

theorem WellFormed.full (h : r.WellFormed) : r.full.WellFormed where
  ne_nil := List.cons_ne_nil _ _
  registry _ := registryOf_mem h
  path := by
    rw [pathOf_full h.ne_nil, fullPathOf]
    split_ifs
    · rw [List.forall_mem_cons]
      exact ⟨library_mem, h.path⟩
    · exact h.path
  tag t ht := by
    obtain rfl := Option.some.inj ht
    cases htag : r.tag with
    | none => exact checkTag_eq_ok.1 checkTag_defaultTag
    | some tag => exact h.tag tag htag

theorem name_full (h : r.components ≠ []) : r.full.name = r.name := by
  have hfull : r.full.components ≠ [] := List.cons_ne_nil _ _
  rw [name, name, registryOf_full h, repositoryOf_eq h, repositoryOf, registryOf_full h, pathOf_full h,
    if_neg (not_single_fullPathOf _)]
  rfl

/-- The text of a name is the text of its reference in full. -/
theorem text_full (h : r.components ≠ []) : r.full.text = r.name.toText.toList := by
  have htext : r.full.text = ['/'].intercalate (registryOf r.components :: fullPathOf r.components) ++
      ':' :: r.tag.getD defaultTag.toList := rfl
  rw [htext, List.intercalate_cons_of_ne_nil (fullPathOf_ne_nil h), ← repositoryOf_eq h]
  simp [toText, name, String.toList_append]

end Reference

/-! ### Names -/

theorem parse_toText {reference : String} {t : Tag} (h : parse reference = .ok t) : parse t.toText = .ok t := by
  obtain ⟨r, hr, -, rfl⟩ := exists_of_parse (parse_eq_ok.1 h)
  rw [parse_eq_ok, ← text_full hr.ne_nil, hr.full.parse, name_full hr.ne_nil]

/-- Whether a file ends with a manifest that names an image by a text alone. -/
def Names (data : ByteArray) (text : String) : Prop :=
  ∃ start manifest config names, data = start ++ Archive.record Export.manifestName manifest ++ Archive.ending ∧
    Json.decodeBytes (Json.Tree.keep 0) manifest = .ok (.array [.object [("Config", .string config),
      ("Layers", .array names), ("RepoTags", .array [.string text])]])

/-- The text of a name that was read is read as that name. So names that were read are equal just if their texts are,
and the text that an archive of such a name bears is read as the name again. -/
theorem toText_fixed_point {reference : String} {t : Tag} (h : parse reference = .ok t) :
    parse t.toText = .ok t ∧
      (∀ reference' t', parse reference' = .ok t' → (t = t' ↔ t.toText = t'.toText)) ∧
      ∀ path i w w', (Export.writeFile path t i).perform w = (.ok (), w') →
        ∃ data text, w'.files.read path = .ok data ∧ Names data text ∧ parse text = .ok t := by
  refine ⟨parse_toText h, fun reference' t' h' => ⟨congrArg toText, fun htext => ?_⟩, fun path i w w' hwrite => ?_⟩
  · have hsame := parse_toText h
    rw [htext, parse_toText h', Except.ok.injEq] at hsame
    exact hsame.symm
  · obtain ⟨more, names, hread⟩ := Export.ends_of_writeFile hwrite
    exact ⟨_, t.toText, hread, ⟨_, _, _, _, rfl, Export.decode_manifestValue _ t names⟩, parse_toText h⟩

/-- A short name with the same name in full and another one that has a port, and an archive that bears the first. -/
theorem toText_fixed_point_app : ∃ t t' : Tag, parse "app" = .ok t ∧ parse "localhost:5000/app" = .ok t' ∧
    parse "index.docker.io/app:latest" = .ok t ∧ t.toText = "index.docker.io/library/app:latest" ∧
    parse t.toText = .ok t ∧ parse t'.toText = .ok t' ∧ (t = t' ↔ t.toText = t'.toText) ∧
    ∃ w' data text, (Export.writeFile "out.tar" t .empty).perform .empty = (.ok (), w') ∧
      w'.files.read "out.tar" = .ok data ∧ Names data text ∧ parse text = .ok t := by
  have h : parse "app" = .ok ⟨"index.docker.io", "library/app", "latest"⟩ := by decide +kernel
  have h' : parse "localhost:5000/app" = .ok ⟨"localhost:5000", "app", "latest"⟩ := by decide +kernel
  obtain ⟨hfixed, hequal, harchive⟩ := toText_fixed_point h
  obtain ⟨w', hwrite⟩ := @Export.exists_writeFile_of_known "out.tar" .empty .empty _
    ⟨"index.docker.io", "library/app", "latest"⟩ rfl nofun nofun
  obtain ⟨data, text, hread, hnames, htext⟩ := harchive _ _ _ _ hwrite
  exact ⟨_, _, h, h', by decide +kernel, by decide +kernel, hfixed, (toText_fixed_point h').1, hequal _ _ h',
    w', data, text, hwrite, hread, hnames, htext⟩

end ImageAssembly.Tag
