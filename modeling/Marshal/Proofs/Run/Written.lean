import Marshal.Proofs.Disk.Changes
import Marshal.Proofs.Header.Places
import Marshal.Proofs.Run.Sequential

/-!
# What the written headers hold

After a run that writes headers, in whatever order its workers took their turns, every path that is
reported as written holds the header of a source file whose header goes to that place.  It need not
be the source file that the path was reported for: source files of one directory that differ in
their extension alone share a header, and only one of them is left in it.

## Main definitions

* `Backed` — a path holds the header of some source file that goes there.

## Main results

* `writeHeader_ok`, `writeHeader_error` — what is where after a header was handed over.
* `Backed.write` — what one more header leaves of the others.
* `written_holds` — what the written headers hold after a run.
-/

namespace Marshal

/-! ### One header -/

namespace Header

theorem makeRoom_adds (d : Disk) (header : FilePath) : d.Adds (makeRoom d header).1 := by
  unfold makeRoom
  split
  · exact .refl d
  · exact .refl d
  · rename_i directory _ _
    have hadds := d.createDirectories_adds directory
    split
    · rename_i d' hmade
      rwa [hmade] at hadds
    · rename_i d' hmade
      rwa [hmade] at hadds

variable {outputDirectory : Option FilePath} {d d' : Disk} {source header : FilePath} {c : FileCode}
  {fault : WriteFault}

/-- What is where after a header was written. -/
theorem writeHeader_ok (h : writeHeader outputDirectory d source c = (d', .ok header)) :
    headerPath? outputDirectory source = some header ∧ d.Grows d' ∧
      ∃ place, d'.find header = .ok place ∧
        d'.get? place = some (.file (.text (.ofText (render source c)))) ∧
        ∀ other e, other ≠ place → d.get? other = some e → d'.get? other = some e := by
  unfold writeHeader at h
  cases hpath : headerPath? outputDirectory source with
  | none =>
    rw [hpath] at h
    cases h
  | some header' =>
    have hadds := makeRoom_adds d header'
    simp only [hpath] at h
    split at h
    · cases h
    · rename_i d₁ hroom
      rw [hroom] at hadds
      cases hwritten : d₁.writeText header' (render source c) with
      | error trouble =>
        rw [hwritten] at h
        cases h
      | ok d₂ =>
        rw [hwritten] at h
        cases h
        obtain ⟨hgrows, place, hfind, hget, hother⟩ := Disk.writeText_eq_ok hwritten
        refine ⟨rfl, hadds.grows.trans hgrows, place, hfind, hget, fun other e hne he => ?_⟩
        rw [hother other hne, hadds.get? other e he]

/-- A header that was not written has changed nothing that was there. -/
theorem writeHeader_error (h : writeHeader outputDirectory d source c = (d', .error fault)) :
    d.Adds d' := by
  unfold writeHeader at h
  cases hpath : headerPath? outputDirectory source with
  | none =>
    rw [hpath] at h
    cases h
    exact .refl d
  | some header' =>
    have hadds := makeRoom_adds d header'
    simp only [hpath] at h
    split at h
    · rename_i hroom
      cases h
      rwa [hroom] at hadds
    · rename_i d₁ hroom
      rw [hroom] at hadds
      cases hwritten : d₁.writeText header' (render source c) with
      | error trouble =>
        rw [hwritten] at h
        cases h
        exact hadds
      | ok d₂ =>
        rw [hwritten] at h
        cases h

end Header

namespace Run

open Schema Header Plugin

/-! ### All headers -/

/-- A path holds the header of one of the source files, which goes to the same place. -/
def Backed (r : Registry) (g : Graph) (outputDirectory : Option FilePath) (live : List Tree)
    (d : Disk) (path : FilePath) : Prop :=
  ∃ u ∈ live, ∃ header place, headerPath? outputDirectory u.source = some header ∧
    d.find header = .ok place ∧ d.find path = .ok place ∧
    d.get? place = some (.file (.text (.ofText (render u.source (generate r g u.ids)))))

/-- If a delivery says where a header went, a header goes there, and there is one. -/
def Delivered (r : Registry) (g : Graph) (outputDirectory : Option FilePath) (live : List Tree)
    (d : Disk) (b : Delivery) : Prop :=
  ∀ path, b.written = .ok path →
    (∃ t ∈ live, headerPath? outputDirectory t.source = some path) ∧
      Backed r g outputDirectory live d path

section

variable {r : Registry} {g : Graph} {outputDirectory : Option FilePath} {live : List Tree}
  {d : Disk} {t : Tree}

/-- A header that was written is where it is said to be. -/
theorem backed_of_write (ht : t ∈ live) {d' : Disk} {path : FilePath}
    (h : writeHeader outputDirectory d t.source (generate r g t.ids) = (d', .ok path)) :
    headerPath? outputDirectory t.source = some path ∧ Backed r g outputDirectory live d' path := by
  obtain ⟨hpath, -, place, hfind, hget, -⟩ := writeHeader_ok h
  exact ⟨hpath, t, ht, path, place, hpath, hfind, hfind, hget⟩

/-- **What one more header leaves of the others**: it may take the place of one. -/
theorem Backed.write {path : FilePath} (hpath : Backed r g outputDirectory live d path)
    (ht : t ∈ live) : Backed r g outputDirectory live
      (writeHeader outputDirectory d t.source (generate r g t.ids)).1 path := by
  obtain ⟨u, hu, header, place, hheader, hfind, hfind', hget⟩ := hpath
  generalize hw : writeHeader outputDirectory d t.source (generate r g t.ids) = w
  obtain ⟨d', written⟩ := w
  cases written with
  | error fault =>
    have hadds := writeHeader_error hw
    exact ⟨u, hu, header, place, hheader, hadds.grows.find hfind, hadds.grows.find hfind',
      hadds.get? place _ hget⟩
  | ok header' =>
    obtain ⟨hheader', hgrows, place', hplace', hget', hother⟩ := writeHeader_ok hw
    by_cases hsame : place = place'
    · subst hsame
      exact ⟨t, ht, header', place, hheader', hplace', hgrows.find hfind', hget'⟩
    · exact ⟨u, hu, header, place, hheader, hgrows.find hfind, hgrows.find hfind',
        hother place _ hsame hget⟩

end

variable {r : Registry} {f : Frontend} {outputDirectory : Option FilePath} {team : Team} {d : Disk}
  {inputs : List FilePath}

/-- Every delivery of a run says where a header goes, and there is one there. -/
theorem ParallelRun.delivered (p : ParallelRun r f (.headers outputDirectory) team d inputs) :
    let store := (collect p.analysis.results).link.1
    ∀ b ∈ p.generation.results,
      Delivered r store.graph outputDirectory (liveTrees store) p.generation.shared b := by
  intro store
  have hnew : ∀ (s : Disk) (k : Unit) (t : Tree), t ∈ liveTrees store →
      Delivered r store.graph outputDirectory (liveTrees store)
        (handing r store.graph (.headers outputDirectory) s k t).1
        (handing r store.graph (.headers outputDirectory) s k t).2.2 := by
    intro s k t ht path hpath
    obtain ⟨hheader, hbacked⟩ := backed_of_write ht (Prod.ext rfl hpath)
    exact ⟨⟨t, ht, hheader⟩, hbacked⟩
  have hold : ∀ (s : Disk) (k : Unit) (t : Tree) (b : Delivery), t ∈ liveTrees store →
      Delivered r store.graph outputDirectory (liveTrees store) s b →
      Delivered r store.graph outputDirectory (liveTrees store)
        (handing r store.graph (.headers outputDirectory) s k t).1 b := by
    intro s k t b ht hb path hpath
    obtain ⟨hheader, hbacked⟩ := hb path hpath
    exact ⟨hheader, hbacked.write ht⟩
  refine p.runs_generation.forall_results hnew hold fun t ht => ?_
  rwa [flatten_shares] at ht

theorem ParallelRun.mem_written {p : ParallelRun r f (.headers outputDirectory) team d inputs}
    {path : FilePath} (h : path ∈ p.report.written) :
    ∃ b ∈ p.generation.results, b.written = .ok path := by
  obtain ⟨b, hb, hpath⟩ := List.mem_filterMap.1 h
  refine ⟨b, hb, ?_⟩
  cases hwritten : b.written with
  | error fault =>
    rw [hwritten] at hpath
    cases hpath
  | ok written =>
    rw [hwritten] at hpath
    exact congrArg Except.ok (Option.some.inj hpath)

/-- **What the written headers hold.**  Source files of one stem share a header if there is a common
directory or they are beside one another, and no others do.  After a run, in whatever order its
workers took their turns, each path that is reported as written is the header of a source file, and
holds the header rendered for one whose header goes to the same place; so it holds its own if there
is no other. -/
theorem written_holds (r : Registry) (f : Frontend) (outputDirectory : Option FilePath)
    (team : Team) (d : Disk) (inputs : List FilePath) :
    (∀ source source' header, headerPath? outputDirectory source = some header →
      (headerPath? outputDirectory source' = some header ↔ source'.stem = source.stem ∧
        headerDirectory outputDirectory source' = headerDirectory outputDirectory source)) ∧
    ∀ p : ParallelRun r f (.headers outputDirectory) team d inputs,
      let store := (collect p.analysis.results).link.1
      let goesTo (t : Tree) (path : FilePath) : Prop :=
        ∃ header, headerPath? outputDirectory t.source = some header ∧
          p.generation.shared.find header = p.generation.shared.find path
      let holds (path : FilePath) (t : Tree) : Prop :=
        p.generation.shared.readText? path = some (render t.source (generate r store.graph t.ids))
      ∀ path ∈ p.report.written, ∃ t ∈ liveTrees store,
        headerPath? outputDirectory t.source = some path ∧
        (∃ u ∈ liveTrees store, goesTo u path ∧ holds path u) ∧
        ((∀ u ∈ liveTrees store, goesTo u path → u = t) → holds path t) := by
  refine ⟨fun source source' header h => headerPath?_eq_iff h, ?_⟩
  intro p store goesTo holds path hpath
  obtain ⟨b, hb, hwritten⟩ := ParallelRun.mem_written hpath
  obtain ⟨⟨t, ht, hheader⟩, u, hu, header, place, hheader', hfind, hfind', hget⟩ :=
    p.delivered b hb path hwritten
  have hgoes : goesTo u path := ⟨header, hheader', hfind.trans hfind'.symm⟩
  have hholds : holds path u :=
    (Disk.readText?_of_find hfind' hget).trans (Raw.toText?_ofText _)
  refine ⟨t, ht, hheader, ⟨u, hu, hgoes, hholds⟩, fun hown => ?_⟩
  rw [← hown u hu hgoes]
  exact hholds

/-- A disk with the descriptions of two source files that differ in their extension. -/
def twins : Disk where
  entries := [(["foo.json"], .file (.text (.ofText
      "\x7b\"source\":\"src/Foo.h\",\"types\":[\x7b\"name\":\"Foo\"\x7d]\x7d"))),
    (["foopp.json"], .file (.text (.ofText
      "\x7b\"source\":\"src/Foo.hpp\",\"types\":[\x7b\"name\":\"FooImpl\"\x7d]\x7d")))]
  here := []

def twinsInputs : List FilePath := [⟨"foo.json"⟩, ⟨"foopp.json"⟩]

/-- The header of both source files. -/
def twinsHeader : FilePath := ⟨"src/generated/Foo.generated.h"⟩

theorem run_twins :
    (run .builtin ⟨twins, []⟩ (.headers none) ⟨2, 2⟩ twins twinsInputs).toOption.map
      (fun done => (done.1.written, done.2.readText? twinsHeader)) =
      some ([twinsHeader, twinsHeader],
        some "// Generated by genserialize from Foo.hpp. Do not edit.\n#pragma once\n") := by
  decide +kernel

theorem written_holds_twins :
    (headerPath? none ⟨"src/Foo.h"⟩ = some twinsHeader ∧
      headerPath? none ⟨"src/Foo.hpp"⟩ = some twinsHeader) ∧
    ∃ p : ParallelRun .builtin ⟨twins, []⟩ (.headers none) ⟨2, 2⟩ twins twinsInputs,
      twinsHeader ∈ p.report.written ∧
      ∃ t ∈ liveTrees (collect p.analysis.results).link.1,
        p.generation.shared.readText? twinsHeader = some (render t.source
          (generate .builtin (collect p.analysis.results).link.1.graph t.ids)) := by
  have hsource : headerPath? none ⟨"src/Foo.h"⟩ = some twinsHeader := by decide +kernel
  obtain ⟨hshare, hwritten⟩ :=
    written_holds .builtin ⟨twins, []⟩ none ⟨2, 2⟩ twins twinsInputs
  obtain ⟨p, hrun⟩ := exists_parallelRun .builtin ⟨twins, []⟩ (.headers none) ⟨2, 2⟩ twins
    (show twinsInputs ≠ [] by decide)
  have hreport := run_twins
  rw [hrun] at hreport
  have hpaths : p.report.written = [twinsHeader, twinsHeader] :=
    (Prod.mk.inj (Option.some.inj hreport)).1
  have hmem : twinsHeader ∈ p.report.written := by
    rw [hpaths]
    exact List.mem_cons_self
  obtain ⟨-, -, -, ⟨u, hu, -, hholds⟩, -⟩ := hwritten p twinsHeader hmem
  exact ⟨⟨hsource, (hshare _ _ _ hsource).2 (by decide +kernel)⟩, p, hmem, u, hu, hholds⟩

/-- **One of two headers is lost** where two source files share one: both are reported as written
to one path, which holds the header of the second. -/
theorem written_twins :
    (liveTrees (collect (twinsInputs.map (alone ⟨twins, []⟩))).link.1).map (·.source) =
      [⟨"src/Foo.h"⟩, ⟨"src/Foo.hpp"⟩] ∧
    (run .builtin ⟨twins, []⟩ (.headers none) ⟨2, 2⟩ twins twinsInputs).toOption.map
      (fun done => (done.1.written, done.2.readText? twinsHeader)) =
      some ([twinsHeader, twinsHeader],
        some "// Generated by genserialize from Foo.hpp. Do not edit.\n#pragma once\n") := by
  have hsources : (liveTrees (collect (twinsInputs.map (alone ⟨twins, []⟩))).link.1).map (·.source) =
      [⟨"src/Foo.h"⟩, ⟨"src/Foo.hpp"⟩] := by decide +kernel
  exact ⟨hsources, run_twins⟩

end Run
end Marshal
