import ModuleRoster.Proofs.Encoding.Utf8Order
import ModuleRoster.Proofs.Program.Relisted

/-!
# Proofs/Program/SortedLines — the lines of the written list are in the order of their bytes

A reader that knows nothing of characters can part the written file at its line feeds: the parts are
the encoded public names, and they ascend byte by byte (`Registry.isFiledAs_listText`), because
UTF-8 keeps the order of texts.  This holds of the file of every run that writes one
(`run_filesAscending`), if no public name has a line feed in it.
-/

namespace ModuleRoster

/-- **Bytes hold the names of a registry in lines.**  The names are the public ones, each as often
as it is in the registry and in order; parted at the line feeds the bytes are the encoded names, in
the order of the bytes too; and a line feed is between each two neighbours and nowhere else. -/
structure Registry.IsFiledAs (registry : Registry) (names : List Text) (bytes : Bytes) : Prop where
  perm : names.Perm (registry.filter fun n => n.head? != some '_')
  ordered : names.Pairwise fun m n => ¬Text.Precedes n m
  lines : bytes.splitOn 0x0A = names.map Utf8.encode
  ascending : (bytes.splitOn 0x0A).Pairwise fun x y => ¬Bytes.Precedes y x
  between : bytes = List.intercalate [0x0A] (names.map Utf8.encode)
  whole : ∀ n ∈ names, 0x0A ∉ Utf8.encode n

section

variable {registry : Registry} (exists_public : ∃ n ∈ registry, isPublic n = true)
  (whole : ∀ n ∈ registry, isPublic n = true → '\n' ∉ n)
include whole

theorem Registry.noFeed_of_mem_listing {n : Text} (hn : n ∈ registry.listing) : '\n' ∉ n :=
  whole n (mem_listing.1 hn).1 (mem_listing.1 hn).2

include exists_public

/-- **The encoded list holds the public names in lines.** -/
theorem Registry.isFiledAs_listText :
    registry.IsFiledAs registry.listing (Utf8.encode registry.listText) := by
  have hne : registry.listing ≠ [] := by
    obtain ⟨n, hn, hpublic⟩ := exists_public
    exact List.ne_nil_of_mem (mem_listing.2 ⟨hn, hpublic⟩)
  have hlines : (Utf8.encode registry.listText).splitOn 0x0A = registry.listing.map Utf8.encode :=
    Utf8.splitOn_encode_unlines hne fun n hn => noFeed_of_mem_listing whole hn
  refine ⟨Text.perm_sort _, registry.pairwise_listing, hlines, ?_, Utf8.encode_unlines _,
    fun n hn hfeed => ?_⟩
  · rw [hlines, List.pairwise_map]
    exact registry.pairwise_listing.imp fun h => h ∘ Utf8.precedes_encode_iff.1
  · exact noFeed_of_mem_listing whole hn (Utf8.feed_mem_encode_iff.1 hfeed)

end

namespace Program

open FileTree

/-- **A written list ascends byte by byte**, one public name to a line, if no public name has a line
feed in it and there is one at all.  What is read at the output path is such a list, and if nothing
stood at the temporary name, then the entry of the path is a file with it.  It makes no difference
whether names are compared by their code points or by their bytes. -/
theorem run_filesAscending :
    (∀ s t : Text, Text.Precedes s t ↔ Bytes.Precedes (Utf8.encode s) (Utf8.encode t)) ∧
    ∀ (m : Machine) (registry : Registry), m.host = some registry →
      (∃ n ∈ registry, isPublic n = true) →
      (∀ n ∈ registry, isPublic n = true → '\n' ∉ n) →
      ∀ invocation words settings path tree outcome after,
        Request.ofWords words = .ok (.list settings) → settings.output = some path → path ≠ [] →
        run invocation words m tree = (outcome, after) → outcome.exit = 0 →
          ∃ names bytes, registry.IsFiledAs names bytes ∧
            (∀ found, after.read path = .ok found → found = bytes) ∧
            (TemporaryIsVacant path m.pid (m.clock.read 2) tree →
              tree.IsReplaced path bytes after) := by
  refine ⟨fun s t => Utf8.precedes_encode_iff.symm, ?_⟩
  intro m registry host exists_public whole invocation words settings path tree outcome after
    accepted houtput hpath h hexit
  have hrun := written_of_run host accepted houtput hpath h hexit
  refine ⟨_, _, Registry.isFiledAs_listText exists_public whole, fun found hread => ?_,
    fun vacant => ?_⟩
  · exact eq_encode_of_content (AtomicWrite.content_of_read_of_run hrun hread)
  · obtain ⟨bytes, hcontent, replaced⟩ := AtomicWrite.isReplaced_of_run vacant hrun
    rwa [eq_encode_of_content hcontent] at replaced

/-- A character of the basic plane comes before one beyond it, also in the file; a private name is
not there, so its line feed does no harm. -/
theorem run_filesAscending_planes :
    let registry : Registry := ["😀".toList, "～".toList, "_\n".toList, "ab".toList, "a".toList]
    let m : Machine := ⟨some registry, 7, ⟨[]⟩⟩
    let words := ["-vo".toList, "b".toList]
    ∃ outcome after names bytes, run .command words m linkedTree = (outcome, after) ∧
      outcome.exit = 0 ∧ registry.IsFiledAs names bytes ∧
      linkedTree.IsReplaced "b".toList bytes after := by
  intro registry m words
  have vacant : TemporaryIsVacant "b".toList 7 (Clock.read ⟨[]⟩ 2) linkedTree := by decide +kernel
  have exits : (run .command ["-vo".toList, "b".toList]
      ⟨some ["😀".toList, "～".toList, "_\n".toList, "ab".toList, "a".toList], 7, ⟨[]⟩⟩
      linkedTree).1.exit = 0 := by decide +kernel
  rcases hrun : run .command words m linkedTree with ⟨outcome, after⟩
  have hexit : outcome.exit = 0 := by
    rw [← exits, hrun]
  have accepted : Request.ofWords words = .ok (.list ⟨true, some "b".toList⟩) := rfl
  obtain ⟨-, files⟩ := run_filesAscending
  obtain ⟨names, bytes, filed, -, replaced⟩ := files m registry rfl (by decide) (by decide)
    .command words ⟨true, some "b".toList⟩ "b".toList linkedTree outcome after accepted rfl
    (by decide) hrun hexit
  exact ⟨outcome, after, names, bytes, rfl, hexit, filed, replaced vacant⟩

end Program

end ModuleRoster
