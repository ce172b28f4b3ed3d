import CtForge.Daemon.Registry

/-!
# What a failed insmod leaves behind (`payload.c`)

The module list and the handles of `dlopen` are as before. The memory file of the payload is
closed by `decompress_xzpayload` where it fails itself, and by a load that succeeds.
-/

namespace CtForge.Payload

open CLang List

/-- The module list, the `module_info`s that were there, the open descriptors and the handles
of `dlopen` are the same. -/
structure LeavesNothing (d d' : Daemon) : Prop where
  links : d'.links = d.links
  infos : ∀ a ∈ d.heap.addrs, d'.heap.get? a = d.heap.get? a
  memfds : ∀ fd, (d'.memfds.get? fd).isSome = (d.memfds.get? fd).isSome
  handles : d'.handles = d.handles

/-- At most the `module_info` at `addr` and the log differ. -/
structure Framed (addr : Nat) (d d' : Daemon) : Prop where
  links : d'.links = d.links
  infos : ∀ a ≠ addr, d'.heap.get? a = d.heap.get? a
  memfds : d'.memfds = d.memfds
  handles : d'.handles = d.handles

variable {w : World} {o : Insmod} {name : Bytes} {addr : Nat} {mi : ModuleInfo} {h : Handle}
  {d d' : Daemon} {ret : Int}

theorem Framed.trans {d'' : Daemon} (h₁ : Framed addr d d') (h₂ : Framed addr d' d'') :
    Framed addr d d'' :=
  ⟨h₂.links.trans h₁.links, fun a ha => (h₂.infos a ha).trans (h₁.infos a ha),
    h₂.memfds.trans h₁.memfds, h₂.handles.trans h₁.handles⟩

theorem addModule_failed (hadd : addModule d addr = .ok (ret, d')) (hret : ret ≠ 0) : d' = d := by
  unfold addModule at hadd
  obtain ⟨mi, -, hadd⟩ := bind_eq_ok.mp hadd
  obtain ⟨found, -, hadd⟩ := bind_eq_ok.mp hadd
  cases found with
  | some _ =>
    cases hadd
    rfl
  | none =>
    obtain ⟨links, -, hadd⟩ := bind_eq_ok.mp hadd
    cases hadd
    exact absurd rfl hret

/-- A start that fails closes the handle and lists nothing. -/
theorem startModule_failed (hstart : startModule o name addr mi h d = .ok (ret, d'))
    (hret : ret ≠ 0) : Framed addr (d.dlclose h) d' := by
  unfold startModule at hstart
  split_ifs at hstart with hinit hexit hcode
  · cases hstart
    exact ⟨rfl, fun _ _ => rfl, rfl, rfl⟩
  · cases hstart
    exact ⟨rfl, fun _ _ => rfl, rfl, rfl⟩
  · cases hstart
    exact ⟨rfl, fun _ ha => d.heap.get?_write_ne ha _, rfl, rfl⟩
  · obtain ⟨⟨added, d''⟩, hadd, hstart⟩ := bind_eq_ok.mp hstart
    dsimp only at hstart
    split_ifs at hstart with hadded
    · cases hstart
      rw [addModule_failed hadd hadded]
      exact ⟨rfl, fun _ ha => d.heap.get?_write_ne ha _, rfl, rfl⟩
    · cases hstart
      exact absurd rfl hret

/-- A load that fails leaves the memory files as they are, its own still open among them. -/
theorem loadPayload_failed {fd : Nat} (hload : loadPayload w o name addr mi fd d = .ok (ret, d'))
    (hret : ret ≠ 0) : Framed addr d d' := by
  unfold loadPayload at hload
  obtain ⟨image, -, hload⟩ := bind_eq_ok.mp hload
  obtain ⟨verdict, -, hload⟩ := bind_eq_ok.mp hload
  dsimp only at hload
  split_ifs at hload
  · cases hload
    exact ⟨rfl, fun _ _ => rfl, rfl, rfl⟩
  · split at hload
    · cases hload
      exact ⟨rfl, fun _ _ => rfl, rfl, rfl⟩
    · rename_i h _
      refine .trans ?_ (startModule_failed hload hret)
      cases o.dlopen <;>
        exact ⟨rfl, fun a ha => d.heap.get?_write_ne ha _, rfl, erase_cons_head ..⟩

/-- A new memory file is closed again where unpacking fails, and open where it does not. -/
theorem decompressXzpayload_memfds (hfresh : ∀ fd, o.archive.memfd = some fd →
      d.memfds.get? fd = none) {fd? : Option Nat}
    (hdec : decompressXzpayload o.archive d = (d', fd?)) :
    (fd? = none → ∀ fd, (d'.memfds.get? fd).isSome = (d.memfds.get? fd).isSome) ∧
      ∀ fd, fd? = some fd → d.memfds.get? fd = none := by
  have hclosed : ∀ fd, o.archive.memfd = some fd → ∀ fd',
      (((d.memfds.write fd []).free fd).get? fd').isSome = (d.memfds.get? fd').isSome := by
    intro fd hfd fd'
    by_cases heq : fd' = fd
    · rw [heq, Heap.get?_free_self, hfresh fd hfd]
    · rw [Heap.get?_free_ne _ heq, Heap.get?_write_ne _ heq]
  unfold decompressXzpayload at hdec
  split at hdec
  · split at hdec
    · cases hdec
      exact ⟨fun _ _ => rfl, by simp⟩
    · rename_i fd hfd
      dsimp only at hdec
      split at hdec
      · cases hdec
        exact ⟨fun _ => hclosed fd hfd, by simp⟩
      · split at hdec
        · cases hdec
          exact ⟨by simp, fun _ heq => by cases heq; exact hfresh fd hfd⟩
        · cases hdec
          exact ⟨fun _ => hclosed fd hfd, by simp⟩
  · cases hdec
    exact ⟨fun _ _ => rfl, by simp⟩

/-- The daemon with the `module_info` that an insmod of `name` allocates. -/
def allocated (w : World) (name : Bytes) (d : Daemon) : Daemon :=
  d.setInfo (w.allocator.malloc d.heap.addrs) (newInfo w name)

/-- The module list is walked with the new `module_info` in place. -/
theorem leaves_nothing_iff_allocated (hrun : doOneInsmod w o name d = .ok (ret, d'))
    (hret : ret ≠ 0) (hfresh : ∀ fd, o.archive.memfd = some fd → d.memfds.get? fd = none) :
    LeavesNothing d d' ↔
      findModule (allocated w name d) name ≠ .ok none ∨ o.archive.image = none := by
  have hne : ∀ a ∈ d.heap.addrs, a ≠ w.allocator.malloc d.heap.addrs := fun a ha heq =>
    w.allocator.fresh _ (heq ▸ ha)
  have hfreed : ∀ a ∈ d.heap.addrs,
      (((allocated w name d).heap.free (w.allocator.malloc d.heap.addrs)).get? a) =
        d.heap.get? a := fun a ha => by
    rw [Heap.get?_free_ne _ (hne a ha)]
    exact Heap.get?_write_ne _ (hne a ha) _
  obtain ⟨found, hfind, hrun⟩ := bind_eq_ok.mp hrun
  cases found with
  | some node =>
    cases hrun
    refine iff_of_true ⟨rfl, hfreed, fun _ => rfl, rfl⟩ (.inl ?_)
    rw [allocated, hfind]
    simp
  | none =>
    obtain ⟨fds, hfds, himage, hnone⟩ :=
      decompressXzpayload_frame o.archive (allocated w name d)
    rcases hdec : decompressXzpayload o.archive (allocated w name d) with ⟨unpacked, fd?⟩
    obtain ⟨hclosed, hnew⟩ := decompressXzpayload_memfds (d := allocated w name d) hfresh hdec
    rw [hdec] at hfds himage hnone
    obtain rfl : unpacked = _ := hfds
    dsimp only at hrun
    rw [← allocated, hdec] at hrun
    cases fd? with
    | none =>
      cases hrun
      exact iff_of_true ⟨rfl, hfreed, hclosed rfl, rfl⟩ (.inr (hnone.mp rfl))
    | some fd =>
      obtain ⟨image, hin⟩ := Option.ne_none_iff_exists'.mp (mt hnone.mpr (by simp))
      have hopen : fds.get? fd = some image := himage.trans hin
      have hframed := loadPayload_failed hrun hret
      refine iff_of_false (fun hnothing => ?_) (by rw [allocated, hfind]; simp [hin])
      have hsame := hnothing.memfds fd
      rw [hframed.memfds, show d.memfds.get? fd = none from hnew fd rfl] at hsame
      simp [Daemon.setInfo, hopen] at hsame

/-- **What a failed insmod leaves behind**: nothing, exactly if the module was listed or its
archive gave no image. -/
theorem failed_insmod_leaves_nothing_iff {mods : List Mod} (hlisted : Listed d mods)
    (hrun : doOneInsmod w o name d = .ok (ret, d')) (hret : ret ≠ 0)
    (hfresh : ∀ fd, o.archive.memfd = some fd → d.memfds.get? fd = none) :
    LeavesNothing d d' ↔ (∃ m ∈ mods, m.2.moduleName = name) ∨ o.archive.image = none := by
  have hwalk := findModule_listed
    (hlisted.setInfo (hlisted.malloc_ne w.allocator) (newInfo w name)) name
  rw [leaves_nothing_iff_allocated hrun hret hfresh, allocated, hwalk]
  simp

/-- An archive that ends before its stream does, while another module is loaded. -/
theorem truncated_archive_leaves_nothing :
    ∃ d d', run trustingWorld Daemon.boot [.insmod (.text (lit "b")) fun _ => loads 3 0] =
        .ok ([.insmod (lit "b") 0], d) ∧
      doOneInsmod trustingWorld { loads 3 1 with archive.streamEnd := none } (lit "a") d =
        .ok (1, d') ∧ LeavesNothing d d' := by
  have hrun : (run trustingWorld Daemon.boot
      [.insmod (.text (lit "b")) fun _ => loads 3 0]).toOption.bind (fun loaded =>
        (doOneInsmod trustingWorld { loads 3 1 with archive.streamEnd := none } (lit "a")
          loaded.2).toOption.map fun r => (loaded.1, r.1, loaded.2.memfds.get? 3)) =
      some ([.insmod (lit "b") 0], 1, none) := by decide +kernel
  rcases hload : run trustingWorld Daemon.boot [.insmod (.text (lit "b")) fun _ => loads 3 0]
    with f | ⟨hist, d⟩ <;> rw [hload] at hrun
  · cases hrun
  rcases hfail : doOneInsmod trustingWorld { loads 3 1 with archive.streamEnd := none }
    (lit "a") d with f | ⟨ret, d'⟩ <;> simp only [Except.toOption, Option.bind_some] at hrun <;>
    rw [hfail] at hrun
  · cases hrun
  simp only [Option.map_some, Option.some.injEq, Prod.mk.injEq] at hrun
  obtain ⟨rfl, rfl, hclosed⟩ := hrun
  obtain ⟨mods, hreg, -⟩ := run_tracks Tracks.boot (by decide) hload
  exact ⟨d, d', rfl, hfail, (failed_insmod_leaves_nothing_iff hreg.listed hfail (by decide)
    fun fd hfd => Option.some.inj hfd ▸ hclosed).mpr (.inr rfl)⟩

/-- A module whose `init` reports failure. -/
theorem failed_init_keeps_descriptor :
    ∃ d', doOneInsmod trustingWorld { loads 3 0 with initResult := .object (some (some 1)) }
        (lit "a") Daemon.boot = .ok (1, d') ∧
      d'.memfds.addrs = [3] ∧ d'.handles = [] ∧ ¬ LeavesNothing Daemon.boot d' := by
  have hrun : (doOneInsmod trustingWorld
      { loads 3 0 with initResult := .object (some (some 1)) } (lit "a")
        Daemon.boot).toOption.map (fun r =>
          (r.1, r.2.memfds.addrs, r.2.handles, (r.2.memfds.get? 3).isSome)) =
      some (1, [3], [], true) := by decide +kernel
  rcases hfail : doOneInsmod trustingWorld
    { loads 3 0 with initResult := .object (some (some 1)) } (lit "a") Daemon.boot
    with f | ⟨ret, d'⟩ <;> rw [hfail] at hrun
  · cases hrun
  simp only [Except.toOption, Option.map_some, Option.some.injEq, Prod.mk.injEq] at hrun
  obtain ⟨rfl, haddrs, hhandles, hopen⟩ := hrun
  refine ⟨d', rfl, haddrs, hhandles, fun h => ?_⟩
  exact absurd (hopen.symm.trans (h.memfds 3)) (by decide)

end CtForge.Payload
