import ImageAssembly.Proofs.ConfigFile.Basic

/-! Configuration documents that come back as they were written. A document is lost in no text if it keeps only
what can be kept, with integers for numbers, and its timestamps stand in years that can be read; only a leap second
that is no minute's comes back as the second which its text names. -/

namespace ImageAssembly

open Json Time

namespace History

/-- A record with the instant that its timestamp names. -/
def settled (h : History) : History := { h with created := h.created.map Instant.settled }

/-- The slots as a record's members fill them, those of its own apart. -/
def written (h : History) : Fields where
  created := h.created.map fun t => some t.settled
  createdBy := valueUnless (h.createdBy == "") h.createdBy
  author := valueUnless (h.author == "") h.author
  comment := valueUnless (h.comment == "") h.comment
  emptyLayer := valueUnless (!h.emptyLayer) true

theorem reads_written {h : History} (hyear : ∀ t ∈ h.created, t.HasPlainYear) (depth : Nat) :
    Reads (Fields.read depth) h.namedMembers {} h.written := by
  have hcreated : ∀ t ∈ h.created, decodeTimestamp (encodeTimestamp t).tree = .ok (some t.settled) := by
    intro t ht
    rw [decodeTimestamp_tree, if_pos (hyear t ht)]
  have hfirst : Reads (Fields.read depth) (optionalMember "created" encodeTimestamp h.created) {} _ :=
    .fieldOf createdSlot "created" (fun _ => rfl) rfl hcreated
  exact (((hfirst.append
    (Reads.fieldUnless createdBySlot "created_by" rfl rfl rfl (h.createdBy == ""))).append
    (Reads.fieldUnless authorSlot "author" rfl rfl rfl (h.author == ""))).append
    (Reads.fieldUnless commentSlot "comment" rfl rfl rfl (h.comment == ""))).append
    (Reads.fieldUnless emptyLayerSlot "empty_layer" rfl rfl rfl (!h.emptyLayer))

theorem getD_created (o : Option Instant) : (o.map fun t => some t.settled).getD none = o.map Instant.settled := by
  cases o <;> rfl

/-- A record comes back as it was written. -/
theorem decode_tree {depth : Nat} {h : History} (hkept : h.IsKept depth)
    (hintegers : membersHaveIntegers h.extra.entries) (hyear : ∀ t ∈ h.created, t.HasPlainYear) :
    decode depth h.encode.tree = .ok h.settled := by
  have hextra := (reader (depth + 1)).reads_extra (fun extra => { h.written with extra }) (fun _ _ _ => rfl)
    hkept hintegers
  have hreads := (reads_written hyear (depth + 1)).append hextra
  have hempty : (valueUnless (!h.emptyLayer) true).getD false = h.emptyLayer := by cases h.emptyLayer <;> rfl
  rw [encode_eq, Value.tree, decode, hreads]
  simp only [Except.bind, Tree.closedOr, if_true, Fields.complete, written, getD_created, hempty, getD_text, settled]

@[simp] theorem settled_settled (h : History) : h.settled.settled = h.settled := by
  simp only [settled, Option.map_map, Function.comp_def, Instant.settled_settled]

theorem optionalMember_settled (o : Option Instant) : optionalMember "created" encodeTimestamp (o.map Instant.settled) =
    optionalMember "created" encodeTimestamp o := by
  cases o with
  | none => rfl
  | some t => simp only [Option.map_some, optionalMember, encodeTimestamp, Instant.toExactText_settled]

theorem encode_settled (h : History) : h.settled.encode = h.encode := by
  simp only [encode_eq, namedMembers, settled, optionalMember_settled]

end History

namespace ContainerConfig

/-- The slots as what is written fills them, members of its own apart. -/
def written (c : ContainerConfig) : Fields where
  user := valueUnless (c.user == "") c.user
  exposedPorts := valueUnless c.exposedPorts.isEmpty c.exposedPorts
  env := valueUnless c.env.isEmpty c.env
  entrypoint := valueUnless c.entrypoint.isEmpty c.entrypoint
  cmd := valueUnless c.cmd.isEmpty c.cmd
  volumes := valueUnless c.volumes.isEmpty c.volumes
  workingDir := valueUnless (c.workingDir == "") c.workingDir
  labels := valueUnless c.labels.isEmpty c.labels
  stopSignal := valueUnless (c.stopSignal == "") c.stopSignal

theorem reads_written (c : ContainerConfig) (depth : Nat) :
    Reads (Fields.read depth) c.namedMembers {} c.written := by
  have hflags (d : Dictionary Unit) :
      Tree.dictionary decodeEmptyObject (dictionaryValue encodeEmptyObject d).tree = .ok d :=
    dictionary_tree fun m _ => decodeEmptyObject_tree m.2
  have hports : exposedPortsSlot.decode (dictionaryValue encodeEmptyObject c.exposedPorts).tree =
      .ok c.exposedPorts := hflags c.exposedPorts
  have hvolumes : volumesSlot.decode (dictionaryValue encodeEmptyObject c.volumes).tree = .ok c.volumes :=
    hflags c.volumes
  have henv : envSlot.decode (listValue .string c.env).tree = .ok c.env := list_tree fun _ _ => rfl
  have hentrypoint : entrypointSlot.decode (listValue .string c.entrypoint).tree = .ok c.entrypoint :=
    list_tree fun _ _ => rfl
  have hcmd : cmdSlot.decode (listValue .string c.cmd).tree = .ok c.cmd := list_tree fun _ _ => rfl
  have hlabels : labelsSlot.decode (dictionaryValue .string c.labels).tree = .ok c.labels :=
    dictionary_tree fun _ _ => rfl
  have huser : Reads (Fields.read depth) (textMember "User" c.user) {} _ :=
    .fieldUnless userSlot "User" rfl rfl rfl (c.user == "")
  have hworkingDir : workingDirSlot.decode (Value.string c.workingDir).tree = .ok c.workingDir := rfl
  have hstopSignal : stopSignalSlot.decode (Value.string c.stopSignal).tree = .ok c.stopSignal := rfl
  exact (((((((huser.append
    (Reads.fieldUnless exposedPortsSlot "ExposedPorts" rfl rfl hports c.exposedPorts.isEmpty)).append
    (Reads.fieldUnless envSlot "Env" rfl rfl henv c.env.isEmpty)).append
    (Reads.fieldUnless entrypointSlot "Entrypoint" rfl rfl hentrypoint c.entrypoint.isEmpty)).append
    (Reads.fieldUnless cmdSlot "Cmd" rfl rfl hcmd c.cmd.isEmpty)).append
    (Reads.fieldUnless volumesSlot "Volumes" rfl rfl hvolumes c.volumes.isEmpty)).append
    (Reads.fieldUnless workingDirSlot "WorkingDir" rfl rfl hworkingDir (c.workingDir == ""))).append
    (Reads.fieldUnless labelsSlot "Labels" rfl rfl hlabels c.labels.isEmpty)).append
    (Reads.fieldUnless stopSignalSlot "StopSignal" rfl rfl hstopSignal (c.stopSignal == ""))

/-- Runtime defaults come back as they were written. -/
theorem decode_tree {depth : Nat} {c : ContainerConfig} (hkept : c.IsKept depth)
    (hintegers : membersHaveIntegers c.extra.entries) : decode depth c.encode.tree = .ok c := by
  have hextra := (reader (depth + 1)).reads_extra (fun extra => { c.written with extra }) (fun _ _ _ => rfl)
    hkept hintegers
  have hreads := (reads_written c (depth + 1)).append hextra
  rw [encode_eq, Value.tree, decode, hreads]
  simp only [Except.bind, Tree.closedOr, if_true, Fields.complete, written, getD_text, getD_list, getD_dictionary]

end ContainerConfig

namespace ConfigFile

/-- Whether all numbers that a document keeps are integers. -/
structure HasIntegers (c : ConfigFile) : Prop where
  extra : membersHaveIntegers c.extra.entries
  config : membersHaveIntegers c.config.extra.entries
  history : ∀ h ∈ c.history, membersHaveIntegers h.extra.entries

/-- Whether nothing of a document is lost in its text. -/
structure IsExact (c : ConfigFile) : Prop where
  kept : c.IsKept
  integers : c.HasIntegers
  years : c.HasPlainYears

/-- A document with the instants that its timestamps name. -/
def settled (c : ConfigFile) : ConfigFile :=
  { c with created := c.created.map Instant.settled, history := c.history.map History.settled }

/-- The text of a document tells no more of its timestamps than the instants that they name. -/
theorem toBytes_settled (c : ConfigFile) : c.settled.toBytes = c.toBytes := by
  have hhistory : listValue History.encode (c.history.map History.settled) = listValue History.encode c.history := by
    simp only [listValue, List.map_map, Function.comp_def, History.encode_settled]
  have hempty : (c.history.map History.settled).isEmpty = c.history.isEmpty := List.isEmpty_map
  simp only [toBytes, encode_eq, namedMembers, listMember, settled, hhistory, hempty,
    History.optionalMember_settled]

/-- Whether no leap second in a document stands behind another second than a minute's last. -/
structure HasProperTimes (c : ConfigFile) : Prop where
  created : ∀ t ∈ c.created, t.IsProper
  history : ∀ h ∈ c.history, ∀ t ∈ h.created, t.IsProper

theorem HasProperTimes.settled {c : ConfigFile} (h : c.HasProperTimes) : c.settled = c := by
  have hcreated (o : Option Instant) (ho : ∀ t ∈ o, t.IsProper) : o.map Instant.settled = o := by
    cases o with
    | none => rfl
    | some t => exact congrArg some (Instant.settled_of_isProper (ho t rfl))
  have hhistory : c.history.map History.settled = c.history := by
    refine (List.map_congr_left fun record hrecord => ?_).trans (List.map_id c.history)
    rw [History.settled, hcreated _ (h.history record hrecord)]
    rfl
  rw [ConfigFile.settled, hcreated _ h.created, hhistory]

theorem HasProperTimes.map_created {c : ConfigFile} (h : c.HasProperTimes) :
    c.history.map (·.created.map Instant.settled) = c.history.map (·.created) := by
  have hsettled := congrArg (·.history.map (·.created)) h.settled
  rwa [ConfigFile.settled, List.map_map] at hsettled

/-- The slots as a document's members fill them, those of its own apart. -/
def written (c : ConfigFile) : Fields where
  architecture := some c.architecture
  variant := valueUnless (c.variant == "") c.variant
  os := some c.os
  created := c.created.map fun t => some t.settled
  author := valueUnless (c.author == "") c.author
  config := some c.config
  rootfs := some c.rootfs
  history := valueUnless c.history.isEmpty (c.history.map History.settled)

/-- The members of the fields fill the slots with what they were written from, but for what the runtime defaults
and the records are read as. -/
theorem reads_fields {c : ConfigFile} {config : ContainerConfig} {records : List History}
    (hyear : ∀ t ∈ c.created, t.HasPlainYear) (hconfig : ContainerConfig.decode 1 c.config.encode.tree = .ok config)
    (hrecords : Tree.list (History.decode 2) (listValue History.encode c.history).tree = .ok records) :
    Reads Fields.read c.namedMembers {}
      { c.written with config := some config, history := valueUnless c.history.isEmpty records } := by
  have hcreated : ∀ t ∈ c.created, decodeTimestamp (encodeTimestamp t).tree = .ok (some t.settled) := by
    intro t ht
    rw [decodeTimestamp_tree, if_pos (hyear t ht)]
  have hdecode : configSlot.decode = ContainerConfig.decode 1 := rfl
  rw [← hdecode] at hconfig
  have hhistory : historySlot.decode (listValue History.encode c.history).tree = .ok records := hrecords
  have harchitecture : Reads Fields.read (member "architecture" (.string c.architecture)) {} _ :=
    .field architectureSlot "architecture" rfl rfl rfl
  have hvariant : variantSlot.decode (Value.string c.variant).tree = .ok c.variant := rfl
  have hos : osSlot.decode (Value.string c.os).tree = .ok c.os := rfl
  have hauthor : authorSlot.decode (Value.string c.author).tree = .ok c.author := rfl
  have hrootfs : rootfsSlot.decode c.rootfs.encode.tree = .ok c.rootfs := c.rootfs.decode_tree
  exact ((((((harchitecture.append
    (.fieldUnless variantSlot "variant" rfl rfl hvariant (c.variant == ""))).append
    (.field osSlot "os" rfl rfl hos)).append
    (.fieldOf createdSlot "created" (fun _ => rfl) rfl hcreated)).append
    (.fieldUnless authorSlot "author" rfl rfl hauthor (c.author == ""))).append
    (.field configSlot "config" rfl rfl hconfig)).append
    (.field rootfsSlot "rootfs" rfl rfl hrootfs)).append
    (.fieldUnless historySlot "history" rfl rfl hhistory c.history.isEmpty)

theorem reads_written {c : ConfigFile} (hc : c.IsExact) : Reads Fields.read c.namedMembers {} c.written :=
  reads_fields hc.years.created (ContainerConfig.decode_tree hc.kept.config hc.integers.config)
    (list_tree_map fun h hh =>
      History.decode_tree (hc.kept.history h hh) (hc.integers.history h hh) (hc.years.history h hh))

/-- A document comes back as it was written. -/
theorem ofBytes_toBytes {c : ConfigFile} (hc : c.IsExact) : ofBytes c.toBytes = .ok c.settled := by
  have hextra := reader.reads_extra (fun extra => { c.written with extra }) (fun _ _ _ => rfl) hc.kept.extra
    hc.integers.extra
  have hreads := (reads_written hc).append hextra
  have hhistory : (valueUnless c.history.isEmpty (c.history.map History.settled)).getD [] =
      c.history.map History.settled :=
    getD_valueUnless fun hnil => by rw [List.isEmpty_iff.1 hnil, List.map_nil]
  rw [ofBytes, toBytes, decodeBytes_toBytes, encode_eq, Value.tree, decode, hreads]
  simp only [Except.bind, Tree.closedOr, if_true, Fields.complete, written, Option.getD_some, History.getD_created,
    getD_text, hhistory, settled]

/-- The records of a document that is read where it is written are read. -/
theorem exists_decode_of_ofBytes_toBytes {c c' : ConfigFile} (h : ofBytes c.toBytes = .ok c') :
    ∀ record ∈ c.history, ∃ record', History.decode 2 record.encode.tree = .ok record' := by
  intro record hrecord
  have hmember : ("history", listValue History.encode c.history) ∈ c.namedMembers := by
    have hsome : c.history.isEmpty = false := List.isEmpty_eq_false_iff.2 (List.ne_nil_of_mem hrecord)
    simp [namedMembers, listMember, memberUnless, hsome]
  rw [ofBytes, toBytes, decodeBytes_toBytes, encode_eq, Value.tree, decode, bind_closedOr_eq_ok] at h
  obtain ⟨s, hs, -⟩ := h
  obtain ⟨s', hread⟩ := reader.reads_of_members hs _ (List.mem_append_left _ hmember)
  obtain ⟨o, ho, -⟩ := bind_pure_eq_ok.1 hread
  obtain ⟨-, records, hrecords, -⟩ := once_eq_ok.1 ho
  exact exists_list_iff.1 ⟨records, hrecords⟩ record hrecord

end ConfigFile

end ImageAssembly
