import ModuleRoster.Program
import ModuleRoster.Proofs.AtomicWrite.ReadBack
import ModuleRoster.Proofs.CommandLine.Words
import ModuleRoster.Proofs.Roster.Listing

/-!
# Proofs/Program/WrittenList — the list that a run writes, and the set that is loaded from it

A run that is given an output path and ends well has put the listing there in one step
(`run_output_ok`), so what was proved of `AtomicWrite.run` holds of it.  The set that is loaded from
the path is the set of the machine just if all public names are clean (`load_of_list_run`).
-/

namespace ModuleRoster

variable {path word value : Text}

/-! ## The command line -/

/-- The output option waits for an operand. -/
theorem Request.ofTokens_output {tokens : List Token} {request : Request}
    (hpath : Token.ofWords [path] = .ok tokens)
    (h : Request.ofTokens .initial [] (.option .output .letter none :: tokens) = .ok request) :
    request = .list ⟨false, some path⟩ := by
  have hawaited : Cluster.ofOption .output .letter none = .ok ⟨[], some .awaited⟩ := rfl
  rw [ofTokens, hawaited] at h
  unfold Token.ofWords at hpath
  split at hpath
  next =>
    cases hpath
    cases h
  next =>
    rcases hword : Token.ofWord path with misuse | token
    · rw [hword] at hpath
      cases hpath
    rw [hword] at hpath
    cases hpath
    cases token with
    | operand value =>
        obtain rfl := Token.ofWord_operand hword
        cases h
        rfl
    | divider => cases h
    | option => cases h
    | unknown => cases h

/-- **The output option takes the word behind it as it is**, or the words are no request. -/
theorem Request.ofWords_output {request : Request}
    (h : Request.ofWords ["-o".toList, path] = .ok request) :
    request = .list ⟨false, some path⟩ := by
  have houtput : Token.ofWord "-o".toList = .ok (.option .output .letter none) := rfl
  rw [Request.ofWords, Token.ofWords, if_neg (by decide), houtput] at h
  rcases hpath : Token.ofWords [path] with misuse | tokens
  · rw [hpath] at h
    cases h
  · rw [hpath] at h
    exact Request.ofTokens_output hpath h

namespace Program

variable {invocation : Invocation} {words : List Text} {m : Machine} {tree after : FileTree}
  {outcome : Outcome} {registry : Registry} {settings : Settings}

/-! ## A run -/

/-- **The timed listing** of a machine with a registry; two readings of the clock are taken. -/
theorem timedList_of_host (host : m.host = some registry) :
    (timedList m).result = .ok registry.listText ∧ (timedList m).next = 2 := by
  simp [timedList, timed, makeList, listPublic, host, Host.registryOr, Except.map,
    Registry.listText]

/-- Without a registry there is no listing. -/
theorem timedList_noHost (host : m.host = none) :
    (timedList m).result = .error .noRegistry := by
  simp [timedList, timed, makeList, listPublic, host, Host.registryOr, Except.map]

theorem run_of_list (accepted : Request.ofWords words = .ok (.list settings)) :
    run invocation words m tree = list settings m tree := by
  rw [run, plan, accepted, list]

/-- Without a registry a run fails, whatever its output path is. -/
theorem list_noHost (host : m.host = none) : list settings m tree
    = (⟨1, [], logText settings.verbose (timedList m).log, some .noRegistry⟩, tree) := by
  simp only [list, listPlan, timedList_noHost host, Plan.carryOut]

/-- Without an output path the list is printed. -/
theorem list_noPath (host : m.host = some registry) (hpath : settings.output.getD [] = []) :
    list settings m tree
      = (⟨0, registry.listText, logText settings.verbose (timedList m).log, none⟩, tree) := by
  simp only [list, listPlan, (timedList_of_host host).1, hpath, Plan.carryOut]

/-- **A run without words prints the list.** -/
theorem run_print (invocation : Invocation) (tree : FileTree) (host : m.host = some registry) :
    run invocation [] m tree = (⟨0, registry.listText, [], none⟩, tree) := by
  have accepted : Request.ofWords [] = .ok (.list ⟨false, none⟩) := rfl
  rw [run_of_list accepted, list_noPath host rfl]
  rfl

section

variable {failure : Failure} (host : m.host = some registry)
  (hpath : settings.output.getD [] = path) (hne : path ≠ [])
include host hpath hne

/-- With an output path the plan is to write the list there, at the third reading of the clock. -/
theorem listPlan_path : listPlan settings m =
    .replace ⟨path, registry.listText, "utf-8".toList⟩ 2
      ⟨0, [], logText settings.verbose ((timedList m).log ++ [.wrote path]), none⟩
      ⟨1, [], logText settings.verbose (timedList m).log, none⟩ := by
  obtain ⟨hresult, hnext⟩ := timedList_of_host host
  obtain ⟨c, rest, rfl⟩ := List.exists_cons_of_ne_nil hne
  simp only [listPlan, hresult, hnext, hpath]

/-- So all depends on the write. -/
theorem list_path_error
    (hrun : AtomicWrite.run ⟨path, registry.listText, "utf-8".toList⟩ m.pid (m.clock.read 2) tree
      = (.error failure, after)) :
    list settings m tree
      = (⟨1, [], logText settings.verbose (timedList m).log, some failure⟩, after) := by
  simp only [list, listPlan_path host hpath hne, Plan.carryOut, hrun]

theorem list_path_ok
    (hrun : AtomicWrite.run ⟨path, registry.listText, "utf-8".toList⟩ m.pid (m.clock.read 2) tree
      = (.ok (), after)) :
    list settings m tree
      = (⟨0, [], logText settings.verbose ((timedList m).log ++ [.wrote path]), none⟩, after) := by
  simp only [list, listPlan_path host hpath hne, Plan.carryOut, hrun]

end

/-- **A run that lists to an output path and ends well** has a registry, and has put its listing at
the path. -/
theorem list_output_ok (houtput : settings.output = some path) (hpath : path ≠ [])
    (h : list settings m tree = (outcome, after)) (hexit : outcome.exit = 0) :
    ∃ registry, m.host = some registry ∧
      AtomicWrite.run ⟨path, registry.listText, "utf-8".toList⟩ m.pid (m.clock.read 2) tree
        = (.ok (), after) := by
  have houtput : settings.output.getD [] = path := by rw [houtput, Option.getD_some]
  rcases host : m.host with _ | registry
  · rw [list_noHost host] at h
    cases h
    cases hexit
  refine ⟨registry, rfl, ?_⟩
  rcases hrun : AtomicWrite.run ⟨path, registry.listText, "utf-8".toList⟩ m.pid (m.clock.read 2)
      tree with ⟨failure | _, written⟩
  · rw [list_path_error host houtput hpath hrun] at h
    cases h
    cases hexit
  · rw [list_path_ok host houtput hpath hrun] at h
    cases h
    rfl

/-- So has a run with the output option alone. -/
theorem run_output_ok (hpath : path ≠ [])
    (h : run invocation ["-o".toList, path] m tree = (outcome, after)) (hexit : outcome.exit = 0) :
    ∃ registry, m.host = some registry ∧
      AtomicWrite.run ⟨path, registry.listText, "utf-8".toList⟩ m.pid (m.clock.read 2) tree
        = (.ok (), after) := by
  unfold run plan at h
  split at h
  next =>
    cases h
    cases hexit
  next hwords => cases Request.ofWords_output hwords
  next settings hwords =>
    cases Request.ofWords_output hwords
    exact list_output_ok rfl hpath h hexit

/-! ## The set that is loaded -/

open FileTree

/-- The encoding that the list is written in. -/
theorem ofName?_utf8 : Encoding.ofName? "utf-8".toList = some (.utf8 false) := by decide

/-- A list is written in UTF-8. -/
theorem eq_encode_of_content {text : Text} {bytes : Bytes}
    (h : AtomicWrite.content ⟨path, text, "utf-8".toList⟩ = .ok bytes) :
    bytes = Utf8.encode text :=
  AtomicWrite.content_eq_encode h (Or.inl ofName?_utf8)

/-- **What is read at the path of a list that was written is the list**, if a set is loaded from
there at all. -/
theorem load_eq_of_written {pid : Int} {now : Binary64} {text : Text} {s : ModuleSet}
    (hrun : AtomicWrite.run ⟨path, text, "utf-8".toList⟩ pid now tree = (.ok (), after))
    (hload : ModuleSet.load after path = .ok s) :
    after.read path = .ok (Utf8.encode text) ∧ s = .parse text := by
  obtain ⟨bytes, t, hread, hdecode, rfl⟩ := ModuleSet.load_eq_ok_iff.1 hload
  cases eq_encode_of_content (AtomicWrite.content_of_read_of_run hrun hread)
  cases (Utf8.decode_encode _).symm.trans hdecode
  exact ⟨hread, rfl⟩

/-- A set is loaded from there just if the path does not go through its own entry, if nothing stood
at the temporary name. -/
theorem exists_load_iff_of_written {pid : Int} {now : Binary64} {text : Text}
    (vacant : TemporaryIsVacant path pid now tree)
    (hrun : AtomicWrite.run ⟨path, text, "utf-8".toList⟩ pid now tree = (.ok (), after)) :
    (∃ s, ModuleSet.load after path = .ok s) ↔ tree.AvoidsItself path :=
  AtomicWrite.exists_load_iff_of_run_plain vacant hrun (Or.inl ofName?_utf8)

/-- The same for a run with the output option alone. -/
theorem load_eq_of_output (host : m.host = some registry) (hpath : path ≠ [])
    (h : run invocation ["-o".toList, path] m tree = (outcome, after)) (hexit : outcome.exit = 0)
    {s : ModuleSet} (hload : ModuleSet.load after path = .ok s) :
    s = .parse registry.listText := by
  obtain ⟨registry', host', hrun⟩ := run_output_ok hpath h hexit
  cases host'.symm.trans host
  exact (load_eq_of_written hrun hload).2

/-- **The listing is loaded from the output path**, or the path is blocked, if nothing stood at the
temporary name. -/
theorem load_of_output (host : m.host = some registry) (hpath : path ≠ [])
    (vacant : TemporaryIsVacant path m.pid (m.clock.read 2) tree)
    (h : run invocation ["-o".toList, path] m tree = (outcome, after)) (hexit : outcome.exit = 0) :
    (tree.AvoidsItself path → ModuleSet.load after path = .ok (.parse registry.listText)) ∧
      (¬tree.AvoidsItself path →
        ModuleSet.load after path = .error (.badPath .notDirectory path)) := by
  obtain ⟨registry', host', hrun⟩ := run_output_ok hpath h hexit
  cases host'.symm.trans host
  exact AtomicWrite.load_of_run_plain vacant hrun (Or.inl ofName?_utf8)

/-- **The set of a written list.**  It is the union of the sets that the public names are read as,
and it is the set of the machine just if all public names are clean; unless the path goes through
its own entry, which the list now blocks. -/
theorem load_of_list_run {registry : Registry} (invocation : Invocation) (m : Machine) (path : Text)
    (tree : FileTree) (host : m.host = some registry) (hpath : path ≠ [])
    (vacant : TemporaryIsVacant path m.pid (m.clock.read 2) tree) :
    ∀ outcome after, run invocation ["-o".toList, path] m tree = (outcome, after) →
      outcome.exit = 0 →
        (tree.AvoidsItself path →
          ModuleSet.load after path
              = .ok (.unionOf ((registry.filter isPublic).map ModuleSet.parse)) ∧
            (ModuleSet.load after path = ModuleSet.current m.host ↔
              ∀ n ∈ registry, isPublic n = true → Text.IsClean n)) ∧
        (¬tree.AvoidsItself path →
          ModuleSet.load after path = .error (.badPath .notDirectory path)) := by
  intro outcome after h hexit
  obtain ⟨hloaded, hblocked⟩ := load_of_output host hpath vacant h hexit
  refine ⟨fun avoids => ⟨?_, ?_⟩, hblocked⟩
  · rw [hloaded avoids, Registry.parse_listText]
  · rw [hloaded avoids, host, ModuleSet.current_of_registry, Except.ok.injEq,
      Registry.parse_listText_eq_iff]

/-- A registry with a name that is not clean, written through a link to a directory. -/
theorem load_of_list_run_link :
    let m : Machine := ⟨some ["re".toList, "_io".toList, "os\r".toList], 7, ⟨[]⟩⟩
    ∃ outcome after, run .command ["-o".toList, "b".toList] m linkedTree = (outcome, after) ∧
      outcome.exit = 0 ∧ ModuleSet.load after "b".toList ≠ ModuleSet.current m.host := by
  intro m
  have vacant : TemporaryIsVacant "b".toList 7 (Clock.read ⟨[]⟩ 2) linkedTree := by decide +kernel
  have avoids : linkedTree.AvoidsItself "b".toList := by decide +kernel
  have exits : (run .command ["-o".toList, "b".toList]
      ⟨some ["re".toList, "_io".toList, "os\r".toList], 7, ⟨[]⟩⟩ linkedTree).1.exit = 0 := by
    decide +kernel
  rcases hrun : run .command ["-o".toList, "b".toList] m linkedTree with ⟨outcome, after⟩
  have hexit : outcome.exit = 0 := by
    rw [← exits, hrun]
  obtain ⟨hload, _⟩ := load_of_list_run .command m "b".toList linkedTree rfl (by decide) vacant
    outcome after hrun hexit
  refine ⟨outcome, after, rfl, hexit, fun hcurrent => ?_⟩
  have hclean := (hload avoids).2.1 hcurrent "os\r".toList (by decide) (by decide)
  exact absurd hclean (by decide)

/-- **At a path that goes through its own entry** the list can be written and not be loaded. -/
theorem not_load_of_list_run_through_itself :
    let m : Machine := ⟨some ["os".toList], 7, ⟨[]⟩⟩
    TemporaryIsVacant "b/../b".toList m.pid (m.clock.read 2) linkedTree ∧
      (run .command ["-o".toList, "b/../b".toList] m linkedTree).1.exit = 0 ∧
      (ModuleSet.load (run .command ["-o".toList, "b/../b".toList] m linkedTree).2
        "b/../b".toList).isOk = false := by
  decide +kernel

end Program

end ModuleRoster
