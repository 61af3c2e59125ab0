import ImageAssembly.Proofs.ConfigFile.RoundTrip

/-! The variables and the labels of a document. They are read of its text as they were written, and where they
are replaced before a document is written, they are what is replaced in what is read, and nothing else. -/

namespace ImageAssembly

open Json

/-! ### Kept members -/

/-- Members that a reader keeps are read as members that it keeps, which depend on nothing else that was read. -/
theorem Json.RecordReader.exists_reads_extra {σ : Type} {step : σ → String → Tree → Decoded σ} {initial : σ}
    {names : List String} {depth : Nat} (reader : RecordReader step initial names depth)
    {extra : Dictionary Value} (hextra : KeptMembers names depth extra) :
    ∃ extra', ∀ put : Dictionary Value → σ, (∀ d k v, reader.keep (put d) k v = put (d.insert k v)) →
      Reads step extra.entries (put .empty) (put extra') := by
  have key : ∀ es : Members, (∀ m ∈ es, m.1 ∉ names ∧ ∃ v, m.2.tree.keep depth = .ok v) →
      ∀ d : Dictionary Value, ∃ d', ∀ put : Dictionary Value → σ,
        (∀ d k v, reader.keep (put d) k v = put (d.insert k v)) → Reads step es (put d) (put d') := by
    intro es
    induction es with
    | nil => exact fun _ d => ⟨d, fun _ _ => rfl⟩
    | cons m es ih =>
      intro hes d
      obtain ⟨hname, v, hv⟩ := hes m (by simp)
      obtain ⟨d', hd'⟩ := ih (fun m hm => hes m (by simp [hm])) (d.insert m.1 v)
      refine ⟨d', fun put hput => ?_⟩
      have hstep : step (put d) m.1 m.2.tree = .ok (put (d.insert m.1 v)) :=
        (reader.step_other_iff hname).2 ⟨v, hv, (hput d m.1 v).symm⟩
      exact (Reads.member hstep).append (hd' put hput)
  exact key extra.entries (fun m hm => hextra.exists_keep hm) .empty

/-- Runtime defaults come back as they were written, the members that have no field apart, which come back as what
depends on nothing else that was written. -/
theorem ContainerConfig.exists_decode_tree {depth : Nat} {extra : Dictionary Value}
    (hextra : KeptMembers fieldNames (depth + 1) extra) :
    ∃ extra', ∀ c : ContainerConfig, c.extra = extra → decode depth c.encode.tree = .ok { c with extra := extra' } := by
  obtain ⟨extra', hreads⟩ := (reader (depth + 1)).exists_reads_extra hextra
  refine ⟨extra', ?_⟩
  rintro c rfl
  have hkept := hreads (fun extra => { c.written with extra }) fun _ _ _ => rfl
  rw [encode_eq, Value.tree, decode, (reads_written c (depth + 1)).append hkept]
  simp only [Except.bind, Tree.closedOr, if_true, Fields.complete, written, getD_text, getD_list, getD_dictionary]

namespace ConfigFile

/-- The document with other variables and labels. -/
def withSettings (c : ConfigFile) (env : List String) (labels : Dictionary String) : ConfigFile :=
  { c with config := { c.config with env, labels } }

@[simp] theorem withSettings_self (c : ConfigFile) : c.withSettings c.config.env c.config.labels = c := rfl

/-! ### The slot of the runtime defaults -/

/-- A member of another key is read alike whatever the slot of the runtime defaults holds, and leaves it. -/
theorem read_config {s s' : Fields} {key : String} {t : Tree} (hkey : key ≠ "config") (h : s.read key t = .ok s')
    (o : Option ContainerConfig) : Fields.read { s with config := o } key t = .ok { s' with config := o } := by
  by_cases hname : key ∈ fieldNames
  · simp only [fieldNames, List.mem_cons, List.not_mem_nil, or_false] at hname
    rcases hname with rfl | rfl | rfl | rfl | rfl | rfl | rfl | rfl
    case inr.inr.inr.inr.inr.inl => exact absurd rfl hkey
    all_goals
      obtain ⟨a, ha, rfl⟩ := bind_pure_eq_ok.1 h
      exact bind_pure_eq_ok.2 ⟨a, ha, rfl⟩
  · obtain ⟨v, hv, rfl⟩ := (reader.step_other_iff hname).1 h
    exact (reader.step_other_iff hname).2 ⟨v, hv, rfl⟩

theorem reads_config {ms : Members} {s s' : Fields} (hkeys : ∀ m ∈ ms, m.1 ≠ "config")
    (h : Reads Fields.read ms s s') (o : Option ContainerConfig) :
    Reads Fields.read ms { s with config := o } { s' with config := o } := by
  induction ms generalizing s with
  | nil =>
    rw [Reads, memberTrees, Tree.members, Except.ok.injEq] at h
    rw [h]
    rfl
  | cons m ms ih =>
    obtain ⟨s1, hm, hrest⟩ := (Reads.append_iff (a := member m.1 m.2)).1 h
    have hread := read_config (hkeys m (by simp)) (Reads.member_iff.1 hm) o
    exact (Reads.member hread).append (ih (fun m hm => hkeys m (by simp [hm])) hrest)

/-! ### Documents -/

/-- The members in front of the runtime defaults. -/
def platformMembers (c : ConfigFile) : Members :=
  member "architecture" (.string c.architecture)
    ++ textMember "variant" c.variant
    ++ member "os" (.string c.os)
    ++ optionalMember "created" encodeTimestamp c.created
    ++ textMember "author" c.author

/-- The members behind the runtime defaults. -/
def contentMembers (c : ConfigFile) : Members :=
  member "rootfs" c.rootfs.encode ++ (listMember "history" History.encode c.history ++ c.extra.entries)

theorem members_eq (c : ConfigFile) : c.namedMembers ++ c.extra.entries =
    c.platformMembers ++ (member "config" c.config.encode ++ c.contentMembers) := by
  simp only [namedMembers, platformMembers, contentMembers, List.append_assoc]

theorem contentMembers_ne_config {c : ConfigFile} (hk : c.IsKept) : ∀ m ∈ c.contentMembers, m.1 ≠ "config" := by
  rw [contentMembers, List.forall_mem_append, List.forall_mem_append]
  refine ⟨?_, ?_, fun m hm hname => ?_⟩
  · exact forall_mem_member.2 (show "rootfs" ≠ "config" by decide)
  · exact forall_mem_memberUnless.2 fun _ => (show "history" ≠ "config" by decide)
  · exact hk.extra.not_named m.1 (List.mem_map_of_mem hm) (by rw [hname]; decide)

theorem ofBytes_toBytes_eq_ok {c c' : ConfigFile} : ofBytes c.toBytes = .ok c' ↔
    ∃ s, Reads Fields.read (c.platformMembers ++ (member "config" c.config.encode ++ c.contentMembers)) {} s ∧
      s.complete = c' := by
  rw [ofBytes, toBytes, decodeBytes_toBytes, encode_eq, members_eq, Value.tree, decode, bind_closedOr_eq_ok]
  simp only [true_and, Reads]

/-- What is read of a written document is read with other variables and labels where it is written with them. -/
theorem ofBytes_toBytes_withSettings {c c' : ConfigFile} (hk : c.IsKept) (h : ofBytes c.toBytes = .ok c')
    (env : List String) (labels : Dictionary String) :
    ofBytes (c.withSettings env labels).toBytes = .ok (c'.withSettings env labels) := by
  obtain ⟨s, hreads, rfl⟩ := ofBytes_toBytes_eq_ok.1 h
  obtain ⟨s1, hfront, hreads⟩ := Reads.append_iff.1 hreads
  obtain ⟨s2, hconfig, hback⟩ := Reads.append_iff.1 hreads
  obtain ⟨o, ho, rfl⟩ := bind_pure_eq_ok.1 (Reads.member_iff.1 hconfig)
  obtain ⟨hfree, config, hdecode, rfl⟩ := once_eq_ok.1 ho
  have hlater := reads_config (contentMembers_ne_config hk) hback
  -- the slot that was filled is not filled again
  have hset : s.config = some config := by rw [Except.ok.inj (hback.symm.trans (hlater (some config)))]
  obtain ⟨extra', hcontainer⟩ := ContainerConfig.exists_decode_tree hk.config
  rw [hcontainer c.config rfl, Except.ok.injEq] at hdecode
  have hread : Reads Fields.read (member "config" (c.withSettings env labels).config.encode) s1
      { s1 with config := some { config with env, labels } } := by
    refine Reads.member (bind_pure_eq_ok.2 ⟨_, once_eq_ok.2 ⟨hfree, _, hcontainer _ rfl, rfl⟩, ?_⟩)
    rw [← hdecode]
    rfl
  refine ofBytes_toBytes_eq_ok.2 ⟨{ s with config := some { config with env, labels } }, ?_, ?_⟩
  · exact hfront.append (hread.append (hlater _))
  · simp only [Fields.complete, withSettings, hset, Option.getD_some]

/-- The variables and the labels come back as they were written. -/
theorem settings_of_ofBytes_toBytes {c c' : ConfigFile} (hk : c.IsKept) (h : ofBytes c.toBytes = .ok c') :
    c'.config.env = c.config.env ∧ c'.config.labels = c.config.labels := by
  have hsame := ofBytes_toBytes_withSettings hk h c.config.env c.config.labels
  rw [withSettings_self, h, Except.ok.injEq] at hsame
  rw [hsame]
  exact ⟨rfl, rfl⟩

end ConfigFile

end ImageAssembly
