import ImageAssembly.CommandLine.Commands
import ImageAssembly.Proofs.Dictionary
import ImageAssembly.Proofs.Layer.Asking

/-! What is read of a build's arguments: the values of its options in the order in which they stand, and nothing
else. Of the options that give pairs only the last value of each key is left. -/

namespace ImageAssembly.CommandLine

/-- The options with their values, in the order of the arguments. -/
def occurrences : List String → List (BuildOption × String)
  | [] => []
  | argument :: rest => match Word.of argument, rest with
    | .option o (some value), _ => (o, value) :: occurrences rest
    | .option o none, value :: _ => (o, value) :: occurrences rest
    | _, _ => occurrences rest

/-- Takes the values of options in turn. -/
def Given.putAll (g : Given) (os : List (BuildOption × String)) : Given := os.foldl (fun g x => g.put x.2 x.1) g

/-! ### Reading -/

/-- What is still to be taken: the value of the last option, and those behind it. -/
def Reading.remaining (r : Reading) (arguments : List String) : List (BuildOption × String) :=
  match r.pending, arguments with
  | some (o, some value), _ => (o, value) :: occurrences arguments
  | some (o, none), value :: _ => (o, value) :: occurrences arguments
  | _, _ => occurrences arguments

variable {r r' : Reading} {g : Given} {argument : String} {arguments arguments' : List String}

theorem Given.set_ok {o : BuildOption} {value : String} {g' : Given} (h : g.set o value = .ok g') :
    g' = g.put value o := by
  rw [Given.set] at h
  split_ifs at h
  exact (Except.ok.inj h).symm

theorem Reading.settle_ok (h : r.settle = .ok g) (arguments : List String) :
    r.given.putAll (r.remaining arguments) = g.putAll (occurrences arguments) := by
  obtain ⟨given, _ | ⟨o, _ | value⟩⟩ := r
  · cases h
    rfl
  · cases h
  · obtain rfl := Given.set_ok h
    rfl

/-- A step takes just what its argument gives. -/
theorem Reading.step_ok (h : r.step argument (Word.of argument) = .ok r') (rest : List String) :
    r.given.putAll (r.remaining (argument :: rest)) = r'.given.putAll (r'.remaining rest) := by
  cases hword : Word.of argument with
  | option o attached =>
    rw [hword] at h
    cases attached with
    | none =>
      obtain ⟨g, hsettle, hr⟩ := bind_eq_ok.1 h
      cases hr
      rw [Reading.settle_ok hsettle]
      cases rest <;> simp [occurrences, hword, Reading.remaining]
    | some value =>
      obtain ⟨g, hsettle, h⟩ := bind_eq_ok.1 h
      obtain ⟨g', hset, hr⟩ := bind_eq_ok.1 h
      cases hr
      rw [Reading.settle_ok hsettle, Given.set_ok hset]
      simp [occurrences, hword, Reading.remaining, Given.putAll]
  | plain =>
    rw [hword] at h
    -- only an option without its value takes a plain argument
    obtain ⟨given, _ | ⟨o, _ | value⟩⟩ := r
    · cases h
    · cases h
      simp [occurrences, hword, Reading.remaining]
    · cases h
  | help =>
    rw [hword] at h
    obtain ⟨g, -, h⟩ := bind_eq_ok.1 h
    cases h
  | _ =>
    rw [hword] at h
    cases h

/-- Reading takes the values of all options in turn. -/
theorem Reading.finish_ok (h : r.finish arguments = .ok g) : g = r.given.putAll (r.remaining arguments) := by
  induction arguments generalizing r with
  | nil => exact (Reading.settle_ok h []).symm
  | cons argument rest ih =>
    rw [Reading.finish] at h
    split at h
    · next hword =>
      split_ifs at h with hrest
      obtain rfl := List.isEmpty_iff.1 hrest
      rw [Reading.settle_ok h]
      simp [occurrences, hword, Given.putAll]
    · obtain ⟨r', hstep, h⟩ := bind_eq_ok.1 h
      rw [Reading.step_ok hstep]
      exact ih h

/-! ### Pairs -/

/-- Whether an option's values are keys with values. -/
def BuildOption.givesPair : BuildOption → Bool
  | .env | .annotate => true
  | _ => false

/-- The values that are given to one option. -/
def valuesOf (o : BuildOption) (os : List (BuildOption × String)) : List String := (os.filter (·.1 = o)).map (·.2)

/-- The options that give no pairs, with their values. -/
def others (os : List (BuildOption × String)) : List (BuildOption × String) := os.filter (!·.1.givesPair)

/-- Options with other pairs. -/
def Given.withPairs (g : Given) (env annotations : List String) : Given := { g with env, annotations }

theorem Given.withPairs_put (g : Given) (value : String) (o : BuildOption) (env annotations : List String) :
    (g.put value o).withPairs env annotations =
      ((g.withPairs env annotations).put value o).withPairs env annotations := by
  cases o <;> rfl

theorem Given.withPairs_putAll {g g' : Given} {env annotations : List String}
    (h : g.withPairs env annotations = g'.withPairs env annotations) (os : List (BuildOption × String)) :
    (g.putAll os).withPairs env annotations = (g'.putAll os).withPairs env annotations := by
  induction os generalizing g g' with
  | nil => exact h
  | cons x os ih => exact ih (by rw [withPairs_put, h, ← withPairs_put])

/-- A pair that has been given makes no difference where the pairs are replaced. -/
theorem Given.withPairs_putAll_put (g : Given) (value : String) {o : BuildOption} (ho : o.givesPair = true)
    (os : List (BuildOption × String)) (env annotations : List String) :
    ((g.put value o).putAll os).withPairs env annotations = (g.putAll os).withPairs env annotations := by
  refine withPairs_putAll ?_ os
  cases o <;> first | rfl | cases ho

/-- Pairs are gathered apart from all else. -/
theorem Given.putAll_eq (g : Given) (os : List (BuildOption × String)) : g.putAll os =
    (g.putAll (others os)).withPairs (g.env ++ valuesOf .env os) (g.annotations ++ valuesOf .annotate os) := by
  induction os generalizing g with
  | nil => simp [putAll, others, valuesOf, withPairs]
  | cons x os ih =>
    obtain ⟨o, value⟩ := x
    have hput : g.putAll ((o, value) :: os) = (g.put value o).putAll os := rfl
    rw [hput, ih]
    cases o with
    | env =>
      rw [withPairs_putAll_put _ _ rfl]
      simp [others, valuesOf, BuildOption.givesPair, put]
    | annotate =>
      rw [withPairs_putAll_put _ _ rfl]
      simp [others, valuesOf, BuildOption.givesPair, put]
    | _ => simp [others, valuesOf, BuildOption.givesPair, put, putAll]

/-- The request with other pairs. -/
def BuildRequest.withPairs (r : BuildRequest) (env annotations : List String) : BuildRequest :=
  { r with env, annotations }

theorem Given.complete_withPairs (g : Given) (env annotations : List String) :
    (g.withPairs env annotations).complete = g.complete.map (·.withPairs env annotations) := by
  obtain ⟨config, _ | ⟨layer, layers⟩, _ | tag, _ | output, arch, base, _, _⟩ := g <;> rfl

/-- What a build is asked for is determined by the options in their order. -/
theorem readBuild_ok {request : BuildRequest} (h : read ("build" :: arguments) = .ok (.build request)) :
    ∃ rest : BuildRequest, (Given.putAll {} (others (occurrences arguments))).complete = .ok rest ∧
      request =
        rest.withPairs (valuesOf .env (occurrences arguments)) (valuesOf .annotate (occurrences arguments)) := by
  obtain ⟨g, hfinish, h⟩ := bind_eq_ok.1 (show readBuild arguments = _ from h)
  obtain ⟨request', hcomplete, h⟩ := bind_eq_ok.1 h
  cases h
  have hg : g = Given.putAll {} (occurrences arguments) :=
    (Reading.finish_ok hfinish).trans (Reading.settle_ok rfl arguments)
  rw [hg, Given.putAll_eq, Given.complete_withPairs] at hcomplete
  cases hrest : (Given.putAll {} (others (occurrences arguments))).complete with
  | error usage => simp [hrest, Except.map] at hcomplete
  | ok rest =>
    rw [hrest] at hcomplete
    exact ⟨rest, rfl, (Except.ok.inj hcomplete).symm⟩

/-- The value that the last of some `key=value` texts gives a key. -/
def lastValue? (key : String) (arguments : List String) : Option String :=
  Dictionary.last? key (arguments.filterMap fun argument => (splitPair argument).toOption)

theorem mapM_splitPair_ok {pairs : List (String × String)} (h : arguments.mapM splitPair = .ok pairs) :
    arguments.filterMap (fun argument => (splitPair argument).toOption) = pairs := by
  induction arguments generalizing pairs with
  | nil =>
    cases h
    rfl
  | cons argument rest ih =>
    rw [List.mapM_cons] at h
    obtain ⟨pair, hpair, h⟩ := bind_eq_ok.1 h
    obtain ⟨pairs', hrest, h⟩ := bind_eq_ok.1 h
    cases h
    rw [List.filterMap_cons_some (by rw [hpair]; rfl), ih hrest]

theorem get?_readPairs {d : Dictionary String} (h : readPairs arguments = .ok d) (key : String) :
    d.get? key = lastValue? key arguments := by
  rw [readPairs] at h
  cases hpairs : arguments.mapM splitPair with
  | error failure => simp [hpairs, Except.map] at h
  | ok pairs =>
    rw [hpairs] at h
    cases h
    rw [Dictionary.get?_ofList, lastValue?, mapM_splitPair_ok hpairs]

/-- Pairs that give each key the same last value give the same map. -/
theorem readPairs_congr {d d' : Dictionary String} (h : readPairs arguments = .ok d)
    (h' : readPairs arguments' = .ok d') (hlast : ∀ key, lastValue? key arguments = lastValue? key arguments') :
    d = d' :=
  Dictionary.ext_get? fun key => by rw [get?_readPairs h, get?_readPairs h', hlast]

end ImageAssembly.CommandLine
