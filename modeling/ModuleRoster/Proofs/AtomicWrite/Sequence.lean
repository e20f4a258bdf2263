import Mathlib.Control.Monad.Basic
import ModuleRoster.Proofs.AtomicWrite.AllOrNothing

/-!
# Proofs/AtomicWrite/Sequence — many calls, one after the other

Calls on plain names work in one directory, and a temporary name of one call could be what another
call is about.  If no temporary name is taken or written to, each call finds its own one free
(`Call.run_of_isPlain`), so it replaces one file or does nothing.  By induction over the calls the
last one that succeeds on a name decides what stands there (`runAll_lastWriteWins`).
-/

namespace ModuleRoster

open FileTree

variable {tree : FileTree} {name : Text} {spot : Spot}

/-! ## Plain names -/

/-- **A name of an entry in the directory where paths begin.** -/
structure Path.IsPlain (name : Text) : Prop where
  ne_nil : name ≠ []
  noSlash : '/' ∉ name
  noNull : '\x00' ∉ name
  proper : Path.IsProper name

instance (name : Text) : Decidable (Path.IsPlain name) :=
  decidable_of_iff (name ≠ [] ∧ '/' ∉ name ∧ '\x00' ∉ name ∧ name ≠ Path.here ∧ name ≠ Path.above)
    ⟨fun ⟨ne, slash, null, here, above⟩ => ⟨ne, slash, null, here, above⟩,
      fun h => ⟨h.ne_nil, h.noSlash, h.noNull, h.proper.ne_here, h.proper.ne_above⟩⟩

namespace FileTree

/-- **A name without a slash leads to the entry of that name**, if it leads anywhere. -/
theorem locate_of_noSlash (noSlash : '/' ∉ name) (proper : Path.IsProper name)
    (h : tree.locate .entry name = .ok spot) : spot = ⟨[], some name, false⟩ := by
  obtain ⟨usable, leads⟩ := locate_eq_ok_iff.1 h
  have hnames : (Path.ofText name).names = [name] := by
    simp [Path.ofText, Path.pieces_of_noSlash noSlash, usable.ne_nil]
  have hslash : (Path.ofText name).slash = false := by
    have : name.getLast? ≠ some '/' := fun hlast => noSlash (List.mem_of_getLast? hlast)
    simpa [Path.ofText] using this
  rw [hnames, hslash] at leads
  exact leads.unique (.unread proper rfl)

/-- It is vacant if there is no such entry. -/
theorem isVacant_of_noSlash (noSlash : '/' ∉ name) (proper : Path.IsProper name)
    (free : tree.get? [name] = none) : tree.IsVacant name := by
  refine isVacant_iff.2 fun spot hspot => ?_
  obtain rfl := locate_of_noSlash noSlash proper hspot
  exact ⟨name, rfl, fun entry hentry => (find_eq_ok_iff.1 hentry).2.symm.trans free⟩

end FileTree

/-! ## One call -/

namespace Call

/-- The result of the call, and the tree after it. -/
def run (c : Call) (tree : FileTree) : Except Failure Unit × FileTree :=
  c.write.run c.pid c.now tree

variable {c : Call}

/-- The temporary name of a call on a plain name is free if there is no such entry. -/
theorem temporaryIsVacant (plain : Path.IsPlain c.write.path)
    (free : ∀ temporary ∈ c.temporaryName?, tree.get? [temporary] = none) :
    TemporaryIsVacant c.write.path c.pid c.now tree := by
  intro temporary htemporary
  have hfree := free temporary (by simp [temporaryName?, htemporary, Except.toOption])
  obtain ⟨suffix, rfl, noSlash, hyphen⟩ := temporaryName_eq_append htemporary
  have noSlash' : '/' ∉ c.write.path ++ suffix := by
    simp [plain.noSlash, noSlash]
  exact isVacant_of_noSlash noSlash'
    (Path.isProper_of_hyphen (List.mem_append_right _ hyphen)) hfree

/-- **A call on a plain name replaces one entry or does nothing.** -/
theorem run_of_isPlain (plain : Path.IsPlain c.write.path)
    (free : ∀ temporary ∈ c.temporaryName?, tree.get? [temporary] = none) :
    (∃ failure, c.run tree = (.error failure, tree)) ∨
      ∃ bytes, c.write.content = .ok bytes ∧
        c.run tree = (.ok (), tree.insert [c.write.path] (.file bytes)) := by
  have vacant := temporaryIsVacant plain free
  rcases hrun : c.run tree with ⟨failure | _, after⟩
  · obtain rfl := AtomicWrite.run_error_of_vacant vacant hrun
    exact Or.inl ⟨failure, rfl⟩
  · obtain ⟨folder, name, _, _, bytes, _, _, _, hfinds, _, hcontent, rfl⟩ :=
      AtomicWrite.run_ok_of_vacant vacant hrun
    cases locate_of_noSlash plain.noSlash plain.proper hfinds.located
    exact Or.inr ⟨bytes, hcontent, rfl⟩

end Call

/-! ## All calls -/

/-- A call and its result. -/
abbrev Record := Call × Except Failure Unit

/-- **Run calls one after the other**: the calls with their results, and the tree after them. -/
def runAll : List Call → FileTree → List Record × FileTree
  | [], tree => ([], tree)
  | c :: cs, tree =>
      let (result, next) := c.run tree
      let (records, after) := runAll cs next
      ((c, result) :: records, after)

/-- The calls that are about a place fail. -/
def FailAt (place : Place) (records : List Record) : Prop :=
  ∀ record ∈ records, place = [record.1.write.path] → record.2.isOk = false

/-- **Temporary names stay out of the way**: none of them is the name of an entry in the tree or of
one that is written to. -/
def TemporariesAreApart (calls : List Call) (tree : FileTree) : Prop :=
  ∀ c ∈ calls, ∀ temporary ∈ c.temporaryName?,
    tree.get? [temporary] = none ∧ ∀ d ∈ calls, d.write.path ≠ temporary

instance (place : Place) (records : List Record) : Decidable (FailAt place records) :=
  inferInstanceAs (Decidable (∀ record ∈ records, _ → _))

instance (calls : List Call) (tree : FileTree) : Decidable (TemporariesAreApart calls tree) :=
  inferInstanceAs (Decidable (∀ c ∈ calls, ∀ temporary ∈ c.temporaryName?, _))

variable {c : Call} {calls : List Call} {records : List Record} {next after : FileTree}
  {result : Except Failure Unit} {place : Place}

theorem runAll_cons (h : runAll (c :: calls) tree = (records, after)) :
    ∃ result next rest, c.run tree = (result, next) ∧ runAll calls next = (rest, after) ∧
      records = (c, result) :: rest := by
  cases h
  exact ⟨_, _, _, rfl, rfl, rfl⟩

theorem map_fst_runAll (h : runAll calls tree = (records, after)) :
    records.map Prod.fst = calls := by
  induction calls generalizing tree records with
  | nil =>
      cases h
      rfl
  | cons c calls ih =>
      obtain ⟨result, next, rest, -, hrest, rfl⟩ := runAll_cons h
      rw [List.map_cons, ih hrest]

/-- **What one call does while more are to come**: it succeeds at one place, and it keeps the
temporary names of the others out of the way. -/
theorem Call.run_of_apart (plain : Path.IsPlain c.write.path)
    (apart : TemporariesAreApart (c :: calls) tree) (h : c.run tree = (result, next)) :
    TemporariesAreApart calls next ∧
      (result.isOk = true → ∃ bytes, c.write.content = .ok bytes ∧
        next.get? [c.write.path] = some (.file bytes)) ∧
      ∀ place, FailAt place [(c, result)] → next.get? place = tree.get? place := by
  have rest : ∀ d ∈ calls, ∀ temporary ∈ d.temporaryName?, tree.get? [temporary] = none ∧
      c.write.path ≠ temporary ∧ ∀ e ∈ calls, e.write.path ≠ temporary :=
    fun d hd temporary ht => by simpa using apart d (List.mem_cons_of_mem c hd) temporary ht
  rcases run_of_isPlain plain fun temporary ht => (apart c List.mem_cons_self temporary ht).1 with
    ⟨failure, hrun⟩ | ⟨bytes, hcontent, hrun⟩
  · obtain ⟨rfl, rfl⟩ := Prod.mk.inj (hrun.symm.trans h)
    exact ⟨fun d hd temporary ht => ⟨(rest d hd temporary ht).1, (rest d hd temporary ht).2.2⟩,
      nofun, fun _ _ => rfl⟩
  · obtain ⟨rfl, rfl⟩ := Prod.mk.inj (hrun.symm.trans h)
    have hget := get?_insert tree (List.cons_ne_nil c.write.path []) (.file bytes)
    refine ⟨fun d hd temporary ht => ?_, fun _ => ⟨bytes, hcontent, by rw [hget, if_pos rfl]⟩,
      fun place fail => ?_⟩
    · obtain ⟨free, ne, others⟩ := rest d hd temporary ht
      refine ⟨?_, others⟩
      rw [hget, if_neg (fun h => ne (List.cons.inj h).1.symm), free]
    · rw [hget, if_neg]
      intro hplace
      exact absurd (fail _ List.mem_cons_self hplace) nofun

/-- **A place at which all calls fail is as at the start**; so is one that no call is about. -/
theorem get?_runAll_of_failAt (plain : ∀ c ∈ calls, Path.IsPlain c.write.path)
    (apart : TemporariesAreApart calls tree) (h : runAll calls tree = (records, after))
    (fail : FailAt place records) : after.get? place = tree.get? place := by
  induction calls generalizing tree records with
  | nil =>
      cases h
      rfl
  | cons c calls ih =>
      obtain ⟨result, next, rest, hrun, hrest, rfl⟩ := runAll_cons h
      obtain ⟨hc, hcalls⟩ := List.forall_mem_cons.1 plain
      obtain ⟨hfirst, hlater⟩ := List.forall_mem_cons.1 fail
      obtain ⟨apart', -, others⟩ := Call.run_of_apart hc apart hrun
      rw [ih hcalls apart' hrest hlater, others place (by simpa [FailAt] using hfirst)]

/-- **A call that succeeds decides on its path**, if all later ones fail there. -/
theorem get?_runAll_of_last (plain : ∀ c ∈ calls, Path.IsPlain c.write.path)
    (apart : TemporariesAreApart calls tree) (h : runAll calls tree = (records, after))
    {before later : List Record} (hrecords : records = before ++ (c, .ok ()) :: later)
    (fail : FailAt [c.write.path] later) :
    ∃ bytes, c.write.content = .ok bytes ∧ after.get? [c.write.path] = some (.file bytes) := by
  induction calls generalizing tree records before with
  | nil =>
      cases h
      simp at hrecords
  | cons d calls ih =>
      obtain ⟨result, next, rest, hrun, hrest, rfl⟩ := runAll_cons h
      obtain ⟨hd, hcalls⟩ := List.forall_mem_cons.1 plain
      obtain ⟨apart', success, -⟩ := Call.run_of_apart hd apart hrun
      cases before with
      | nil =>
          obtain ⟨⟨rfl, rfl⟩, rfl⟩ : (d = c ∧ result = .ok ()) ∧ rest = later := by
            simpa using hrecords
          obtain ⟨bytes, hcontent, hfile⟩ := success rfl
          exact ⟨bytes, hcontent, (get?_runAll_of_failAt hcalls apart' hrest fail).trans hfile⟩
      | cons first before =>
          exact ih hcalls apart' hrest (List.cons.inj hrecords).2

/-- **The last write wins.**  Calls on plain names are run one after the other, and no temporary
name is taken or written to.  Then each path has what the last call that succeeded on it has
written, all else is as at the start, and nothing is left at a temporary name. -/
theorem runAll_lastWriteWins (calls : List Call) (tree : FileTree)
    (plain : ∀ c ∈ calls, Path.IsPlain c.write.path) (apart : TemporariesAreApart calls tree) :
    ∃ records after, runAll calls tree = (records, after) ∧ records.map Prod.fst = calls ∧
      (∀ before c later, records = before ++ (c, .ok ()) :: later →
        FailAt [c.write.path] later →
          ∃ bytes, c.write.content = .ok bytes ∧ after.get? [c.write.path] = some (.file bytes)) ∧
      (∀ place, FailAt place records → after.get? place = tree.get? place) ∧
      ∀ c ∈ calls, ∀ temporary ∈ c.temporaryName?, after.get? [temporary] = none := by
  rcases h : runAll calls tree with ⟨records, after⟩
  refine ⟨records, after, rfl, map_fst_runAll h,
    fun before c later hrecords fail => get?_runAll_of_last plain apart h hrecords fail,
    fun place fail => get?_runAll_of_failAt plain apart h fail, fun c hc temporary ht => ?_⟩
  -- no call is about a temporary name
  obtain ⟨free, others⟩ := apart c hc temporary ht
  refine (get?_runAll_of_failAt plain apart h fun record hrecord hplace => ?_).trans free
  have hcall : record.1 ∈ calls := map_fst_runAll h ▸ List.mem_map_of_mem hrecord
  exact absurd (List.cons.inj hplace).1.symm (others _ hcall)

/-- A file that is written, and then not written because the text cannot be encoded. -/
theorem runAll_lastWriteWins_failure :
    let tree : FileTree := ⟨[(["a".toList], .file [0x78]), (["d".toList], .directory)]⟩
    let first : Call := ⟨⟨"a".toList, "é".toList, "latin-1".toList⟩, 7, .zero⟩
    let second : Call := ⟨⟨"a".toList, "é".toList, "ascii".toList⟩, 7, .zero⟩
    let third : Call := ⟨⟨"d".toList, "os".toList, "utf-8".toList⟩, 7, .zero⟩
    (∀ c ∈ [first, second, third], Path.IsPlain c.write.path) ∧
      TemporariesAreApart [first, second, third] tree ∧
      ∃ records after, runAll [first, second, third] tree = (records, after) ∧
        after.get? ["a".toList] = some (.file [0xE9]) ∧
        after.get? ["d".toList] = some .directory ∧ after.get? ["a-7-0".toList] = none := by
  intro tree first second third
  have plain : ∀ c ∈ [first, second, third], Path.IsPlain c.write.path := by decide
  have apart : TemporariesAreApart [first, second, third] tree := by decide +kernel
  obtain ⟨records, after, hrun, hcalls, last, others, gone⟩ :=
    runAll_lastWriteWins [first, second, third] tree plain apart
  have hevaluated : (runAll [first, second, third] tree).1.map Prod.snd = [.ok (),
      .error (.unencodable ⟨.ascii, 0, ['é']⟩),
      .error (.badRename .isDirectory "d-7-0".toList "d".toList)] := by decide +kernel
  rw [hrun] at hevaluated
  obtain rfl := List.zip_of_prod hcalls hevaluated
  have temporary : "a-7-0".toList ∈ first.temporaryName? := by decide +kernel
  obtain ⟨bytes, hcontent, hfile⟩ := last [] first _ rfl (by decide)
  cases hcontent
  exact ⟨plain, apart, _, after, hrun, hfile, others _ (by decide),
    gone first List.mem_cons_self _ temporary⟩

end ModuleRoster
