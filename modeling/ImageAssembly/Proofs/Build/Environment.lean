import ImageAssembly.Proofs.Build.Outcome
import ImageAssembly.Proofs.ConfigFile.Runtime
import ImageAssembly.Proofs.Text.Bytes

/-! The variables of a built image. They are written as texts in the order of their bytes, which is not the order
of their names, and every text is split again where its name ends: the names that a description may give hold no
equals sign. -/

namespace ImageAssembly

namespace Dictionary

variable {α : Type}

theorem get?_insertNew (d : Dictionary α) (k : String) (v : α) (j : String) :
    (d.insertNew k v).get? j = (d.get? j).or (if j = k then some v else none) := by
  rw [insertNew, contains]
  by_cases hk : j = k
  · subst hk
    cases hv : d.get? j with
    | none => simp [get?_insert]
    | some u => simp [hv]
  · split_ifs <;> simp [get?_insert, hk]

/-- Of entries that are stored where their keys have no value, each key finds its first one. -/
theorem get?_foldl_insertNew (es : List (String × α)) (d : Dictionary α) (k : String) :
    (es.foldl (fun d (k, v) => d.insertNew k v) d).get? k = (d.get? k).or (lookup k es) := by
  induction es generalizing d with
  | nil => simp [lookup]
  | cons e es ih =>
    rw [List.foldl_cons, ih, get?_insertNew, Option.or_assoc, lookup]
    split_ifs <;> rfl

theorem nodup_keys (d : Dictionary α) : (d.entries.map Prod.fst).Nodup := by
  refine (List.pairwise_map.2 d.sorted).imp ?_
  rintro a _ h rfl
  exact String.lt_irrefl a h

end Dictionary

namespace Build

/-! ### Entries -/

/-- The name and the value in an entry, around its first equals sign. -/
def partsOf? (entry : String) : Option (String × String) :=
  (Text.cutFirst '=' entry.toList).map fun (name, value) => (String.ofList name, String.ofList value)

/-- The names and values of an environment, entry by entry. -/
def variablesOf (env : List String) : List (String × String) := env.filterMap partsOf?

/-- The entry of a variable. -/
def entryOf (v : String × String) : String := v.1 ++ "=" ++ v.2

theorem toList_entry (name value : String) :
    (name ++ "=" ++ value).toList = name.toList ++ '=' :: value.toList := by
  simp [String.toList_append]

/-- An entry is split where its name ends, whatever its value holds. -/
theorem partsOf?_entryOf {v : String × String} (h : '=' ∉ v.1.toList) : partsOf? (entryOf v) = some v := by
  rw [partsOf?, entryOf, toList_entry, Text.cutFirst_append _ h]
  simp

theorem variablesOf_map_entryOf {vs : List (String × String)} (h : ∀ v ∈ vs, '=' ∉ v.1.toList) :
    variablesOf (vs.map entryOf) = vs := by
  induction vs with
  | nil => rfl
  | cons v vs ih =>
    rw [variablesOf, List.map_cons, List.filterMap_cons_some (partsOf?_entryOf (h v (by simp))), ← variablesOf,
      ih fun u hu => h u (by simp [hu])]

/-! ### The rendered environment -/

/-- The value that a variable has where it is left out. -/
def defaultValue? (name : String) : Option String := Dictionary.lookup name defaultEnvironment

theorem get?_fullEnvironment (environment : Dictionary String) (name : String) :
    (fullEnvironment environment).get? name = (environment.get? name).or (defaultValue? name) :=
  Dictionary.get?_foldl_insertNew defaultEnvironment environment name

/-- The names that are filled in hold no equals sign either. -/
theorem noEquals_fullEnvironment {environment : Dictionary String} (h : ∀ name ∈ environment.keys, '=' ∉ name.toList) :
    ∀ v ∈ (fullEnvironment environment).entries, '=' ∉ v.1.toList := by
  intro v hv
  have hget := (Dictionary.get?_eq_some_iff _ v.1 v.2).2 hv
  rw [get?_fullEnvironment, Option.or_eq_some_iff] at hget
  rcases hget with hget | ⟨-, hget⟩
  · exact h v.1 (Dictionary.mem_keys_iff.2 ⟨_, hget⟩)
  · rw [defaultValue?, defaultEnvironment, Dictionary.lookup, Dictionary.lookup, Dictionary.lookup] at hget
    split_ifs at hget with hpath hcertificates
    · rw [hpath]
      decide
    · rw [hcertificates]
      decide

/-- Whether texts write down the variables that have a value: they ascend in the order of bytes, and each is split
at its first equals sign into a name, which no other one has, and its value. -/
structure Renders (env : List String) (value? : String → Option String) : Prop where
  ascending : env.Pairwise fun a b => a.toUTF8.toList < b.toUTF8.toList
  split : ∀ entry ∈ env, (partsOf? entry).isSome
  names : ((variablesOf env).map Prod.fst).Nodup
  values : ∀ name value, (name, value) ∈ variablesOf env ↔ value? name = some value

theorem notBehind_iff {a b : String} : notBehind a b = true ↔ a ≤ b := decide_eq_true_iff

theorem pairwise_renderEnvironment (environment : Dictionary String) :
    (renderEnvironment environment).Pairwise fun a b => notBehind a b = true := by
  refine List.pairwise_mergeSort (fun a b c hab hbc => ?_) (fun a b => ?_) _
  · exact notBehind_iff.2 (String.le_trans (notBehind_iff.1 hab) (notBehind_iff.1 hbc))
  · rw [Bool.or_eq_true, notBehind_iff, notBehind_iff]
    exact String.le_total a b

/-- Texts that stand in order are what the variables that they write down are rendered as. -/
theorem renderEnvironment_eq {environment : Dictionary String} {env : List String}
    (hperm : env.Perm ((fullEnvironment environment).entries.map entryOf))
    (hsorted : env.Pairwise fun a b => notBehind a b = true) : renderEnvironment environment = env :=
  List.Perm.eq_of_pairwise
    (fun _ _ _ _ hab hba => String.le_antisymm (notBehind_iff.1 hab) (notBehind_iff.1 hba))
    (pairwise_renderEnvironment environment) hsorted ((List.mergeSort_perm _ _).trans hperm.symm)

theorem renders_renderEnvironment {environment : Dictionary String}
    (h : ∀ name ∈ environment.keys, '=' ∉ name.toList) :
    Renders (renderEnvironment environment) fun name => (environment.get? name).or (defaultValue? name) := by
  have hnames := noEquals_fullEnvironment h
  have hperm : (renderEnvironment environment).Perm ((fullEnvironment environment).entries.map entryOf) :=
    List.mergeSort_perm _ _
  have hvariables : (variablesOf (renderEnvironment environment)).Perm (fullEnvironment environment).entries := by
    have := hperm.filterMap partsOf?
    rwa [← variablesOf, ← variablesOf, variablesOf_map_entryOf hnames] at this
  have hnodup : (renderEnvironment environment).Nodup := by
    refine hperm.nodup_iff.2 ((Dictionary.nodup_entries _).map_on fun u hu v hv huv => ?_)
    -- entries of one text are split alike
    have := congrArg partsOf? huv
    rwa [partsOf?_entryOf (hnames u hu), partsOf?_entryOf (hnames v hv), Option.some.injEq] at this
  refine ⟨?_, fun entry hentry => ?_, ?_, fun name value => ?_⟩
  · refine ((pairwise_renderEnvironment environment).and hnodup).imp fun {a b} hab => Bytes.toUTF8_lt ?_
    by_contra hlt
    exact hab.2 (String.le_antisymm (notBehind_iff.1 hab.1) (String.not_lt.1 hlt))
  · obtain ⟨v, hv, rfl⟩ := List.mem_map.1 (hperm.mem_iff.1 hentry)
    rw [partsOf?_entryOf (hnames v hv)]
    rfl
  · exact (hvariables.map Prod.fst).nodup_iff.2 (Dictionary.nodup_keys _)
  · rw [hvariables.mem_iff, ← Dictionary.get?_eq_some_iff, get?_fullEnvironment]

/-! ### Built images -/

/-- The variables and the labels of a document that is read where a build has written it. -/
theorem settings_of_configFile {base j : Image} {layers : List Layer} {description : Configuration}
    {created : Time.Instant} {arch : Architecture} {w w' : Workspace} {c : ConfigFile}
    (h : (build base layers description created arch).perform w = (.ok j, w')) (hc : j.configFile = .ok c) :
    c.config.env = renderEnvironment description.environment ∧
      c.config.labels = Provenance.annotations description created := by
  obtain ⟨document, hraw, hkept, henv, hlabels⟩ := document_of_build h
  have hread : ConfigFile.ofBytes document.toBytes = .ok c := hraw ▸ mapError_eq_ok.1 hc
  obtain ⟨hsame, hsame'⟩ := ConfigFile.settings_of_ofBytes_toBytes hkept hread
  exact ⟨hsame.trans henv, hsame'.trans hlabels⟩

theorem readable_of_build {base j : Image} {layers : List Layer} {description : Configuration}
    {created : Time.Instant} {arch : Architecture} {w w' : Workspace} (hlayers : layers ≠ [])
    (h : (build base layers description created arch).perform w = (.ok j, w')) : ∃ c, j.configFile = .ok c := by
  obtain ⟨c, hc⟩ := exists_configFile_of_build hlayers h
  exact ⟨c, mapError_eq_ok.2 hc⟩

/-- A description that keeps the rules is written as a list of variables from which its environment is had back,
with the defaults where it has no variable of their name. So it is in every image that is built of it: in the document
that is written, and in what is read of it, which can be read if there is a new layer. -/
theorem environment_of_build (base : Image) (layers : List Layer) (description : Configuration)
    (created : Time.Instant) (arch : Architecture) (w : Workspace) (hvalid : description.validate = .ok ()) :
    Renders (renderEnvironment description.environment)
        (fun name => (description.environment.get? name).or (defaultValue? name)) ∧
      ∀ j w', (build base layers description created arch).perform w = (.ok j, w') →
        (∃ document, j.rawConfig = ConfigFile.toBytes document ∧ Renders document.config.env
          fun name => (description.environment.get? name).or (defaultValue? name)) ∧
        (∀ c, j.configFile = .ok c → Renders c.config.env
          fun name => (description.environment.get? name).or (defaultValue? name)) ∧
        (layers ≠ [] → ∃ c, j.configFile = .ok c) := by
  have hnames := (Configuration.validate_eq_ok_iff.1 hvalid).names
  have hrenders := renders_renderEnvironment fun name hname => (hnames name hname).2
  refine ⟨hrenders, fun j w' h => ⟨?_, fun c hc => ?_, fun hlayers => readable_of_build hlayers h⟩⟩
  · obtain ⟨document, hraw, -, henv, -⟩ := document_of_build h
    exact ⟨document, hraw, henv ▸ hrenders⟩
  · rw [(settings_of_configFile h hc).1]
    exact hrenders

/-- Variables of which the first name begins the second, and the second value holds an equals sign. -/
def prefixed : Configuration where
  environment := .ofList [("A", "1"), ("A!", "x=y")]

theorem renderEnvironment_prefixed : renderEnvironment prefixed.environment =
    ["A!=x=y", "A=1", "PATH=/usr/local/sbin:/usr/local/bin:/usr/bin:/usr/sbin:/sbin:/bin",
      "SSL_CERT_FILE=/etc/ssl/certs/ca-certificates.crt"] :=
  renderEnvironment_eq (by decide +kernel) (by decide +kernel)

/-- The longer name stands first in the image, and both variables are had back. -/
theorem environment_of_build_prefixed : prefixed.validate = .ok () ∧
    prefixed.environment.keys = ["A", "A!"] ∧
    ∃ j w' c, (build .empty twoLayers prefixed .epoch ⟨"amd64", ""⟩).perform .empty = (.ok j, w') ∧
      j.configFile = .ok c ∧
      c.config.env = ["A!=x=y", "A=1", "PATH=/usr/local/sbin:/usr/local/bin:/usr/bin:/usr/sbin:/sbin:/bin",
        "SSL_CERT_FILE=/etc/ssl/certs/ca-certificates.crt"] ∧
      Renders c.config.env fun name => (prefixed.environment.get? name).or (defaultValue? name) := by
  have hvalid : prefixed.validate = .ok () := by decide
  have hpaired : Paired .empty := rfl
  have hyears : Time.Instant.HasPlainYear .epoch := by decide
  obtain ⟨j, w', h⟩ := exists_build_commandless hvalid rfl rfl hpaired
    (appendable_iff.2 ⟨_, Image.appendable_empty⟩) (opened_twoLayers .empty) tells_twoLayers
    ((plainYears_empty_iff twoLayers_ne_nil).2 hyears) ⟨"amd64", ""⟩
  obtain ⟨-, hbuilt⟩ := environment_of_build .empty twoLayers prefixed .epoch ⟨"amd64", ""⟩ .empty hvalid
  obtain ⟨-, hread, hreadable⟩ := hbuilt j w' h
  obtain ⟨c, hc⟩ := hreadable twoLayers_ne_nil
  refine ⟨hvalid, by decide, j, w', c, h, hc, ?_, hread c hc⟩
  rw [(settings_of_configFile h hc).1, renderEnvironment_prefixed]

end Build

end ImageAssembly
