import CtForge.Daemon.Payload
import Mathlib.Data.List.Find

/-!
# The module registry is exact

`Registry w d mods` is the invariant of the daemon between two operations: the
module list is a ring through the modules `mods`, whose names are pairwise
distinct, and every image that was ever mapped had passed
`do_safty_verify_sign` before. Each operation keeps it: `do_one_insmod` puts
one module in front of `mods` when it returns 0 and changes nothing otherwise
(`doOneInsmod_spec`), and `do_one_rmmod` takes one out (`doOneRmmod_spec`).

The specification is the history of requests alone: `LoadedBy hist name` says
that `name` was insmod'ed with success and not rmmod'ed with success since.
`registry_exact` relates the two for every run.
-/

namespace CtForge.Payload

open CLang IntrusiveList Signature List Option

/-- A module of the registry: the address of its `module_info`, and the info. -/
abbrev Mod := Nat × ModuleInfo

def Mod.node (m : Mod) : Node := .module m.1

/-- The module list is a ring through `mods`, under pairwise distinct names
that fit their buffers. -/
structure Listed (d : Daemon) (mods : List Mod) : Prop where
  ring : Ring d.links .moduleListHead (mods.map Mod.node)
  stored : ∀ m ∈ mods, d.heap.get? m.1 = some m.2
  distinct : (mods.map fun m => m.2.moduleName).Nodup
  fits : ∀ m ∈ mods, m.2.moduleName.length < nameMax

/-- Every listed module, and every open handle, is code that was mapped after
the image had passed the signature check. -/
structure Vetted (w : World) (d : Daemon) (mods : List Mod) : Prop where
  loaded : ∀ m ∈ mods, ∃ h, m.2.dlHandle = some h ∧ .mapped h ∈ d.log
  opened : ∀ h ∈ d.handles, .mapped h ∈ d.log
  ordered : ∀ newer h older, d.log = newer ++ .mapped h :: older → .verified h.image 0 ∈ older
  sound : ∀ image, .verified image 0 ∈ d.log →
    doSaftyVerifySign w.env (some publicKeyPath) (some image) = .ok 0

structure Registry (w : World) (d : Daemon) (mods : List Mod) : Prop where
  listed : Listed d mods
  vetted : Vetted w d mods

variable {w : World} {d d' : Daemon} {mods : List Mod}

/-! ## What keeps the invariant -/

theorem Listed.frame (h : Listed d mods) (hlinks : d'.links = d.links)
    (hheap : ∀ m ∈ mods, d'.heap.get? m.1 = d.heap.get? m.1) : Listed d' mods :=
  ⟨hlinks ▸ h.ring, fun m hm => (hheap m hm).trans (h.stored m hm), h.distinct, h.fits⟩

variable {addr : Nat}

theorem Listed.setInfo (h : Listed d mods) (ha : ∀ m ∈ mods, m.1 ≠ addr) (mi : ModuleInfo) :
    Listed (d.setInfo addr mi) mods :=
  h.frame rfl fun m hm => Heap.get?_write_ne _ (ha m hm) mi

theorem Listed.freeInfo (h : Listed d mods) (ha : ∀ m ∈ mods, m.1 ≠ addr) :
    Listed (d.freeInfo addr) mods :=
  h.frame rfl fun m hm => Heap.get?_free_ne _ (ha m hm)

/-- An event keeps the log vetted if it maps only what was verified, with the verdict of the
check. -/
theorem Vetted.emit (h : Vetted w d mods) {e : Event}
    (hmap : ∀ hd, e = .mapped hd → .verified hd.image 0 ∈ d.log)
    (hver : ∀ image, e = .verified image 0 →
      doSaftyVerifySign w.env (some publicKeyPath) (some image) = .ok 0) :
    Vetted w (d.emit e) mods where
  loaded m hm := by
    obtain ⟨hd, heq, hin⟩ := h.loaded m hm
    exact ⟨hd, heq, mem_cons_of_mem _ hin⟩
  opened hd hin := mem_cons_of_mem _ (h.opened hd hin)
  ordered newer hd older heq := by
    cases newer with
    | nil =>
      obtain ⟨he, rfl⟩ := List.cons.inj (heq : e :: d.log = .mapped hd :: older)
      exact hmap hd he
    | cons e' newer =>
      obtain ⟨-, htail⟩ := List.cons.inj (heq : e :: d.log = e' :: (newer ++ .mapped hd :: older))
      exact h.ordered newer hd older htail
  sound image hin := by
    rcases mem_cons.mp hin with heq | hin
    · exact hver image heq.symm
    · exact h.sound image hin

theorem Vetted.setHandles (h : Vetted w d mods) {hs : List Handle}
    (hsub : ∀ hd ∈ hs, .mapped hd ∈ d.log) : Vetted w { d with handles := hs } mods :=
  ⟨h.loaded, hsub, h.ordered, h.sound⟩

theorem Vetted.dlclose (h : Vetted w d mods) (hd : Handle) : Vetted w (d.dlclose hd) mods :=
  h.setHandles fun hd' hin => h.opened hd' (mem_of_mem_erase hin)

theorem Vetted.called (h : Vetted w d mods) {e : Event}
    (he : (∃ n, e = .initCalled n) ∨ ∃ n, e = .exitCalled n) : Vetted w (d.emit e) mods := by
  rcases he with ⟨n, rfl⟩ | ⟨n, rfl⟩
  · exact h.emit (fun _ heq => by cases heq) (fun _ heq => by cases heq)
  · exact h.emit (fun _ heq => by cases heq) (fun _ heq => by cases heq)

theorem Vetted.frame (h : Vetted w d mods) (hlog : d'.log = d.log)
    (hhandles : d'.handles = d.handles) : Vetted w d' mods := by
  obtain ⟨hl, ho, hord, hs⟩ := h
  exact ⟨by rwa [hlog], by rwa [hlog, hhandles], by rwa [hlog], by rwa [hlog]⟩

theorem Listed.closePayload (h : Listed d mods) (fd : Option Nat) :
    Listed (d.closePayload fd) mods := by
  cases fd with
  | none => exact h
  | some fd => exact h.frame rfl fun _ _ => rfl

theorem Vetted.closePayload (h : Vetted w d mods) (fd : Option Nat) :
    Vetted w (d.closePayload fd) mods := by
  cases fd with
  | none => exact h
  | some fd => exact h.frame rfl rfl

theorem Registry.boot : Registry w Daemon.boot [] where
  listed := ⟨ring_nil rfl rfl, by simp, nodup_nil, by simp⟩
  vetted := ⟨by simp, by simp [Daemon.boot], by simp [Daemon.boot], by simp [Daemon.boot]⟩

/-! ## The module list -/

theorem Listed.addrs_nodup (h : Listed d mods) : (mods.map Prod.fst).Nodup := by
  have hnd : (mods.map Mod.node).Nodup := (nodup_cons.mp h.ring.nodup).2
  have hmap : mods.map Mod.node = (mods.map Prod.fst).map Node.module := by
    rw [List.map_map]
    rfl
  rw [hmap] at hnd
  exact List.Nodup.of_map _ hnd

theorem Listed.malloc_ne (h : Listed d mods) (alloc : Allocator) :
    ∀ m ∈ mods, m.1 ≠ alloc.malloc d.heap.addrs := by
  intro m hm heq
  have hnone := Heap.get?_malloc alloc d.heap
  rw [← heq, h.stored m hm] at hnone
  cases hnone

theorem Listed.fuel (h : Listed d mods) : (mods.map Mod.node).length < d.heap.cells.length + 1 := by
  have hle : (mods.map Prod.fst).length ≤ d.heap.cells.length := by
    apply Heap.length_le_of_allocated h.addrs_nodup
    intro a ha
    obtain ⟨m, hm, rfl⟩ := List.mem_map.mp ha
    exact ⟨m.2, h.stored m hm⟩
  simp only [length_map] at hle ⊢
  omega

def holdsName (d : Daemon) (name : Bytes) : Node → Bool
  | .moduleListHead => false
  | .module addr => (d.heap.get? addr).any fun mi => mi.moduleName = name

/-- On a ring the search gives the first module of that name. -/
theorem findModule_listed (h : Listed d mods) (name : Bytes) :
    findModule d name =
      .ok ((mods.find? fun m => m.2.moduleName = name).map Mod.node) := by
  have hq : ∀ m ∈ mods, holdsName d name m.node = decide (m.2.moduleName = name) := by
    intro m hm
    simp [holdsName, Mod.node, h.stored m hm]
  have hmatch : ∀ n ∈ mods.map Mod.node, nameMatches d name n = .ok (holdsName d name n) := by
    intro n hn
    obtain ⟨m, hm, rfl⟩ := List.mem_map.mp hn
    have hcmp : strncmpEq nameMax m.2.moduleName name = decide (m.2.moduleName = name) := by
      rw [Bool.eq_iff_iff, strncmpEq_iff_of_lt (h.fits m hm), decide_eq_true_iff]
    rw [hq m hm, ← hcmp]
    simp [nameMatches, Mod.node, Heap.read, h.stored m hm]
  rw [findModule, listFind_ring h.ring hmatch h.fuel, List.find?_map]
  congr 2
  exact List.find?_congr fun m hm => hq m hm

variable {mi : ModuleInfo}

/-- A new name is put in front of the module list. -/
theorem addModule_listed (h : Listed d mods) (hinfo : d.heap.get? addr = some mi)
    (hfits : mi.moduleName.length < nameMax) (haddr : ∀ m ∈ mods, m.1 ≠ addr)
    (hnew : ∀ m ∈ mods, m.2.moduleName ≠ mi.moduleName) :
    ∃ links, addModule d addr = .ok (0, { d with links := links }) ∧
      Listed { d with links := links } ((addr, mi) :: mods) := by
  have hnode : Node.module addr ∉ .moduleListHead :: mods.map Mod.node := by
    simp only [mem_cons, reduceCtorEq, List.mem_map, false_or]
    rintro ⟨m, hm, heq⟩
    exact haddr m hm (Node.module.inj heq)
  obtain ⟨links, hadd, hring⟩ := listAdd_ring h.ring hnode
  have hnone : (mods.find? fun m => m.2.moduleName = mi.moduleName) = none := by
    simpa using hnew
  refine ⟨links, ?_, hring, ?_, ?_, ?_⟩
  · simp [addModule, Heap.read, hinfo, findModule_listed h, hnone, hadd]
  · intro m hm
    rcases mem_cons.mp hm with rfl | hm
    · exact hinfo
    · exact h.stored m hm
  · rw [map_cons, nodup_cons]
    refine ⟨fun hmem => ?_, h.distinct⟩
    obtain ⟨m, hm, heq⟩ := List.mem_map.mp hmem
    exact hnew m hm heq
  · intro m hm
    rcases mem_cons.mp hm with rfl | hm
    · exact hfits
    · exact h.fits m hm

theorem Listed.setHead {mi mi' : ModuleInfo} (h : Listed d ((addr, mi) :: mods))
    (hname : mi'.moduleName = mi.moduleName) :
    Listed (d.setInfo addr mi') ((addr, mi') :: mods) := by
  have hne : ∀ m ∈ mods, m.1 ≠ addr := by
    intro m hm heq
    have hnd : (addr :: mods.map Prod.fst).Nodup := h.addrs_nodup
    exact (nodup_cons.mp hnd).1 (List.mem_map.mpr ⟨m, hm, heq⟩)
  refine ⟨h.ring, ?_, ?_, ?_⟩
  · intro m hm
    rcases mem_cons.mp hm with rfl | hm
    · exact Heap.get?_write_self _ _ _
    · exact (Heap.get?_write_ne _ (hne m hm) mi').trans (h.stored m (mem_cons_of_mem _ hm))
  · have hd := h.distinct
    rw [map_cons] at hd ⊢
    rwa [hname]
  · intro m hm
    rcases mem_cons.mp hm with rfl | hm
    · rw [hname]
      exact h.fits _ mem_cons_self
    · exact h.fits m (mem_cons_of_mem _ hm)

theorem deleteModule_listed {xs ys : List Mod} {m : Mod} (h : Listed d (xs ++ m :: ys)) :
    ∃ links, deleteModule d m.1 = .ok { d with links := links } ∧
      Listed { d with links := links } (xs ++ ys) := by
  have hring := h.ring
  rw [map_append, map_cons] at hring
  obtain ⟨links, hdel, hring'⟩ := listDel_ring hring
  have hsub : (xs ++ ys).Sublist (xs ++ m :: ys) :=
    (sublist_cons_self m ys).append_left xs
  refine ⟨links, ?_, ?_, ?_, ?_, ?_⟩
  · rw [deleteModule, show Node.module m.1 = m.node from rfl, hdel]
    rfl
  · rwa [← map_append] at hring'
  · exact fun m' hm' => h.stored m' (hsub.subset hm')
  · exact h.distinct.sublist (hsub.map _)
  · exact fun m' hm' => h.fits m' (hsub.subset hm')

/-! ## insmod -/

def Event.isCall : Event → Bool
  | .initCalled _ => true
  | .exitCalled _ => true
  | _ => false

def Daemon.calls (d : Daemon) : List Event := d.log.filter Event.isCall

@[simp] theorem calls_closePayload (d : Daemon) (fd : Option Nat) :
    (d.closePayload fd).calls = d.calls := by
  cases fd <;> rfl

/-- What one insmod of `name` does that has its `module_info` at `addr`: it fails without a
call of the module's code, or `init` is called and reports failure, or it reports success
and the registry has one more module. -/
inductive Loaded (w : World) (o : Insmod) (mods : List Mod) (name : Bytes) (addr : Nat)
    (d : Daemon) (r : Int × Daemon) : Prop where
  | refused (ret : r.1 ≠ 0) (registry : Registry w r.2 mods) (calls : r.2.calls = d.calls)
  | failed (ret : r.1 ≠ 0) (registry : Registry w r.2 mods)
      (code : o.initResult.code ≠ some 0) (calls : r.2.calls = .initCalled name :: d.calls)
  | listed (ret : r.1 = 0) (mi : ModuleInfo) (moduleName : mi.moduleName = name)
      (registry : Registry w r.2 ((addr, mi) :: mods)) (code : o.initResult.code = some 0)
      (calls : r.2.calls = .initCalled name :: d.calls)

/-- What one insmod of `name` does: it fails and leaves the registry as it was,
or it returns 0 and the registry has one more module. -/
def Inserted (w : World) (mods : List Mod) (name : Bytes) (r : Int × Daemon) : Prop :=
  (r.1 ≠ 0 ∧ Registry w r.2 mods) ∨
  (r.1 = 0 ∧ ∃ addr mi, mi.moduleName = name ∧ Registry w r.2 ((addr, mi) :: mods))

variable {name : Bytes} {o : Insmod} {r : Int × Daemon}

theorem Loaded.inserted (h : Loaded w o mods name addr d r) : Inserted w mods name r := by
  cases h with
  | refused ret registry _ | failed ret registry _ _ => exact .inl ⟨ret, registry⟩
  | listed ret mi moduleName registry _ _ => exact .inr ⟨ret, addr, mi, moduleName, registry⟩

variable {hd : Handle}

theorem Vetted.cons (h : Vetted w d mods) (hhandle : mi.dlHandle = some hd)
    (hin : .mapped hd ∈ d.log) : Vetted w d ((addr, mi) :: mods) := by
  refine ⟨?_, h.opened, h.ordered, h.sound⟩
  intro m hm
  rcases mem_cons.mp hm with rfl | hm
  · exact ⟨hd, hhandle, hin⟩
  · exact h.loaded m hm

/-- A module whose code is mapped is started and listed, or unloaded again. -/
theorem startModule_spec (h : Registry w d mods) (hname : mi.moduleName = name)
    (hfits : name.length < nameMax) (haddr : ∀ m ∈ mods, m.1 ≠ addr)
    (hnew : ∀ m ∈ mods, m.2.moduleName ≠ name) (hhandle : mi.dlHandle = some hd)
    (hmapped : .mapped hd ∈ d.log) :
    ∃ r, startModule o name addr mi hd d = .ok r ∧ Loaded w o mods name addr d r := by
  have hclosed : Registry w (d.dlclose hd) mods :=
    ⟨h.listed.frame rfl fun _ _ => rfl, h.vetted.dlclose hd⟩
  rw [startModule]
  split
  · exact ⟨_, rfl, .refused (by simp) hclosed rfl⟩
  split
  · exact ⟨_, rfl, .refused (by simp) hclosed rfl⟩
  let mi' : ModuleInfo := { mi with init := true, exit := true }
  let called := (d.setInfo addr mi').emit (.initCalled name)
  have hinfo : called.heap.get? addr = some mi' := Heap.get?_write_self _ _ _
  have hlisted : Listed called mods :=
    (h.listed.setInfo haddr mi').frame rfl fun _ _ => rfl
  have hvetted : Vetted w called mods :=
    (h.vetted.frame rfl rfl : Vetted w (d.setInfo addr mi') mods).called (.inl ⟨name, rfl⟩)
  dsimp only
  by_cases hcode : o.initResult.code = some 0
  · rw [if_neg (not_not_intro hcode)]
    obtain ⟨links, hadd, hlisted'⟩ :=
      addModule_listed hlisted hinfo (hname ▸ hfits) haddr (fun m hm => hname ▸ hnew m hm)
    have hvetted' : Vetted w called ((addr, { mi' with payloadFd := none }) :: mods) :=
      hvetted.cons hhandle (mem_cons_of_mem _ hmapped)
    rw [show addModule _ addr = _ from hadd]
    refine ⟨_, rfl, .listed rfl { mi' with payloadFd := none } hname ⟨?_, ?_⟩ hcode ?_⟩
    · exact (hlisted'.closePayload _).setHead rfl
    · exact (hvetted'.closePayload mi.payloadFd).frame (by cases mi.payloadFd <;> rfl)
        (by cases mi.payloadFd <;> rfl)
    · exact calls_closePayload _ mi.payloadFd
  · rw [if_pos hcode]
    exact ⟨_, rfl,
      .failed (by simp) ⟨hlisted.frame rfl fun _ _ => rfl, hvetted.dlclose hd⟩ hcode rfl⟩

theorem opened_vetted (h : Vetted w d mods) {fd : Nat} {image : Bytes} {o : Dlopen}
    (hver : .verified image 0 ∈ d.log) (hopen : o.handle d fd image = some hd) :
    Vetted w (o.opened d hd) mods ∧ .mapped hd ∈ (o.opened d hd).log := by
  cases o with
  | null => cases hopen
  | maps id =>
    obtain rfl : (⟨id, fd, image⟩ : Handle) = hd := some.inj hopen
    have hemit : Vetted w (d.emit (.mapped ⟨id, fd, image⟩)) mods := by
      refine h.emit (fun hd' heq => ?_) (fun _ heq => by cases heq)
      cases heq
      exact hver
    refine ⟨hemit.setHandles ?_, mem_cons_self⟩
    intro hd' hin
    rcases mem_cons.mp hin with rfl | hin
    · exact mem_cons_self
    · exact hemit.opened hd' hin
  | known =>
    have hin : hd ∈ d.handles := mem_of_find?_eq_some hopen
    refine ⟨h.setHandles ?_, h.opened hd hin⟩
    intro hd' hin'
    rcases mem_cons.mp hin' with rfl | hin'
    · exact h.opened _ hin
    · exact h.opened hd' hin'

theorem opened_listed (h : Listed d mods) (o : Dlopen) (hd : Handle) :
    Listed (o.opened d hd) mods := by
  cases o with
  | null | maps id | known => exact h.frame rfl fun _ _ => rfl

theorem opened_calls (o : Dlopen) (d : Daemon) (hd : Handle) : (o.opened d hd).calls = d.calls := by
  cases o <;> rfl

theorem Loaded.of_calls (h : Loaded w o mods name addr d r) (hcalls : d.calls = d'.calls) :
    Loaded w o mods name addr d' r := by
  cases h with
  | refused ret registry calls => exact .refused ret registry (calls.trans hcalls)
  | failed ret registry code calls => exact .failed ret registry code (hcalls ▸ calls)
  | listed ret mi moduleName registry code calls =>
    exact .listed ret mi moduleName registry code (hcalls ▸ calls)

/-- An unpacked image is loaded and listed, or refused; only the signature check may not return. -/
theorem loadPayload_spec (h : Registry w d mods) (o : Insmod) (mi : ModuleInfo) {addr fd : Nat}
    {image : Bytes} (hname : mi.moduleName = name) (hfits : name.length < nameMax)
    (haddr : ∀ m ∈ mods, m.1 ≠ addr) (hnew : ∀ m ∈ mods, m.2.moduleName ≠ name)
    (hfd : d.memfds.get? fd = some image) :
    (∃ r, loadPayload w o name addr mi fd d = .ok r ∧ Loaded w o mods name addr d r) ∨
    (∃ f, doSaftyVerifySign w.env (some publicKeyPath) (some image) = .error f ∧
      loadPayload w o name addr mi fd d = .error f) := by
  have hread : d.memfds.read fd = .ok image := by simp [Heap.read, hfd]
  cases hv : doSaftyVerifySign w.env (some publicKeyPath) (some image) with
  | error f => exact .inr ⟨f, rfl, by simp [loadPayload, hread, hv]⟩
  | ok ret =>
    refine .inl ?_
    simp only [loadPayload, hread, hv, ok_bind]
    have hlisted : Listed (d.emit (.verified image ret)) mods :=
      h.listed.frame rfl fun _ _ => rfl
    have hvetted : Vetted w (d.emit (.verified image ret)) mods := by
      refine h.vetted.emit (fun _ heq => by cases heq) (fun image' heq => ?_)
      cases heq
      exact hv
    split
    · exact ⟨_, rfl, .refused (by simp) ⟨hlisted, hvetted⟩ rfl⟩
    case isFalse hret =>
      obtain rfl : ret = 0 := not_not.mp hret
      cases hopen : o.dlopen.handle (d.emit (.verified image 0)) fd image with
      | none => exact ⟨_, rfl, .refused (by simp) ⟨hlisted, hvetted⟩ rfl⟩
      | some hd =>
        obtain ⟨hvetted', hmapped⟩ := opened_vetted hvetted mem_cons_self hopen
        have hlisted' := opened_listed hlisted o.dlopen hd
        have hname' : ({ mi with dlHandle := some hd } : ModuleInfo).moduleName = name := hname
        obtain ⟨r, hok, hloaded⟩ := startModule_spec (o := o)
          ⟨hlisted'.setInfo haddr { mi with dlHandle := some hd }, hvetted'.frame rfl rfl⟩
          hname' hfits haddr hnew rfl hmapped
        exact ⟨r, hok, hloaded.of_calls (opened_calls o.dlopen _ hd)⟩

/-- Unpacking changes the memory files only, and its descriptor is the one that holds the image
of the archive. -/
theorem decompressXzpayload_frame (a : Archive) (d : Daemon) :
    ∃ fds, (decompressXzpayload a d).1 = { d with memfds := fds } ∧
      (decompressXzpayload a d).2.bind fds.get? = a.image ∧
      ((decompressXzpayload a d).2 = none ↔ a.image = none) := by
  refine ⟨(decompressXzpayload a d).1.memfds, ?_⟩
  unfold decompressXzpayload
  cases hread : a.readable <;> cases hfd : a.memfd <;> cases hdec : a.decoder <;>
    cases hsize : a.sized <;> cases himage : decompressLoop a.passes a.streamEnd [] <;>
    simp [Archive.image, hread, hfd, hdec, hsize, himage, Heap.get?_write_self, Daemon.close]

/-- **insmod**: the call fails and the registry is as before, or it returns 0
and the module is listed; only the signature check may end the daemon. -/
theorem doOneInsmod_loaded (h : Registry w d mods) (o : Insmod) (hfits : name.length < nameMax) :
    (∃ r, doOneInsmod w o name d = .ok r ∧
      Loaded w o mods name (w.allocator.malloc d.heap.addrs) d r) ∨
    (∃ image f, o.archive.image = some image ∧
      doSaftyVerifySign w.env (some publicKeyPath) (some image) = .error f ∧
      doOneInsmod w o name d = .error f) := by
  obtain ⟨addr, hmalloc⟩ : ∃ addr, w.allocator.malloc d.heap.addrs = addr := ⟨_, rfl⟩
  have haddr : ∀ m ∈ mods, m.1 ≠ addr := hmalloc ▸ h.listed.malloc_ne w.allocator
  obtain ⟨mi, hmi⟩ : ∃ mi, newInfo w name = mi := ⟨_, rfl⟩
  have hname : mi.moduleName = name := hmi ▸ snprintf_eq_self hfits
  have halloc : Registry w (d.setInfo addr mi) mods :=
    ⟨h.listed.setInfo haddr mi, h.vetted.frame rfl rfl⟩
  simp only [doOneInsmod, hmalloc, hmi, findModule_listed halloc.listed, ok_bind]
  cases hfind : mods.find? fun m => m.2.moduleName = name with
  | some m =>
    exact .inl ⟨_, rfl,
      .refused (by simp) ⟨halloc.listed.freeInfo haddr, h.vetted.frame rfl rfl⟩ rfl⟩
  | none =>
    have hnew : ∀ m ∈ mods, m.2.moduleName ≠ name := by simpa using hfind
    obtain ⟨fds, hfds, himage, hnone⟩ := decompressXzpayload_frame o.archive (d.setInfo addr mi)
    rcases hdec : decompressXzpayload o.archive (d.setInfo addr mi) with ⟨unpacked, fd⟩
    rw [hdec] at hfds himage hnone
    obtain rfl : unpacked = _ := hfds
    have hunpacked : Listed { d.setInfo addr mi with memfds := fds } mods :=
      halloc.listed.frame rfl fun _ _ => rfl
    cases fd with
    | none =>
      exact .inl ⟨_, rfl,
        .refused (by simp) ⟨hunpacked.freeInfo haddr, h.vetted.frame rfl rfl⟩ rfl⟩
    | some fd =>
      obtain ⟨image, hin⟩ := ne_none_iff_exists'.mp (mt hnone.mpr (by simp))
      have hfd : fds.get? fd = some image := himage.trans hin
      have hopened := hunpacked.setInfo haddr { mi with payloadFd := some fd }
      have hload := loadPayload_spec ⟨hopened, h.vetted.frame rfl rfl⟩ o
        { mi with payloadFd := some fd } hname hfits haddr hnew hfd
      rcases hload with ⟨r, hok, hloaded⟩ | ⟨f, hv, herr⟩
      · exact .inl ⟨r, hok, hloaded.of_calls rfl⟩
      · exact .inr ⟨image, f, hin, hv, herr⟩

theorem doOneInsmod_spec (h : Registry w d mods) (o : Insmod) (hfits : name.length < nameMax) :
    (∃ r, doOneInsmod w o name d = .ok r ∧ Inserted w mods name r) ∨
    (∃ image f, o.archive.image = some image ∧
      doSaftyVerifySign w.env (some publicKeyPath) (some image) = .error f ∧
      doOneInsmod w o name d = .error f) := by
  rcases doOneInsmod_loaded h o hfits with ⟨r, hok, hloaded⟩ | herr
  · exact .inl ⟨r, hok, hloaded.inserted⟩
  · exact .inr herr

/-! ## rmmod and lsmod -/

/-- What one rmmod of `name` does: it fails and leaves the registry as it was,
or it returns 0 and the module of that name is gone. -/
def Removed (w : World) (mods : List Mod) (name : Bytes) (r : Int × Daemon) : Prop :=
  (r.1 ≠ 0 ∧ Registry w r.2 mods) ∨
  (r.1 = 0 ∧ ∃ xs m ys, mods = xs ++ m :: ys ∧ m.2.moduleName = name ∧
    Registry w r.2 (xs ++ ys))

/-- What one rmmod of `name` does: it fails without a call of module code, or `exit` of the
module that is found is called and the module is gone. -/
inductive Unloaded (w : World) (mods : List Mod) (name : Bytes) (d : Daemon)
    (r : Int × Daemon) : Prop where
  | refused (ret : r.1 ≠ 0) (registry : Registry w r.2 mods) (calls : r.2.calls = d.calls)
  | removed (ret : r.1 = 0) (xs : List Mod) (m : Mod) (ys : List Mod)
      (mods : mods = xs ++ m :: ys) (moduleName : m.2.moduleName = name)
      (found : findModule d name = .ok (some m.node)) (registry : Registry w r.2 (xs ++ ys))
      (calls : r.2.calls = .exitCalled name :: d.calls)

theorem Unloaded.toRemoved (h : Unloaded w mods name d r) : Removed w mods name r := by
  cases h with
  | refused ret registry _ => exact .inl ⟨ret, registry⟩
  | removed ret xs m ys hmods moduleName _ registry _ =>
    exact .inr ⟨ret, xs, m, ys, hmods, moduleName, registry⟩

theorem rmmodFails_spec (h : Registry w d mods) (o : Rmmod) (name : Bytes) :
    (∃ r, rmmodFails o d = .ok r ∧ Unloaded w mods name d r) ∨
    (o.strayArg = false ∧ ∃ f, rmmodFails o d = .error f) := by
  cases hs : o.strayArg with
  | true => exact .inl ⟨(-1, d), by simp [rmmodFails, hs], .refused (by simp) h rfl⟩
  | false => exact .inr ⟨rfl, .uninitialized, by simp [rmmodFails, hs]⟩

/-- **rmmod**: the call fails and the registry is as before, or it returns 0
and the module is gone; only a log call without its argument may end the
daemon. -/
theorem doOneRmmod_spec (h : Registry w d mods) (o : Rmmod) (name : Bytes) :
    (∃ r, doOneRmmod o name d = .ok r ∧ Unloaded w mods name d r) ∨
    (o.strayArg = false ∧ ∃ f, doOneRmmod o name d = .error f) := by
  have hfound := findModule_listed h.listed name
  simp only [doOneRmmod, hfound, ok_bind]
  cases hfind : mods.find? fun m => m.2.moduleName = name with
  | none => exact rmmodFails_spec h o name
  | some m =>
    rw [hfind, map_some] at hfound
    have hm : m ∈ mods := mem_of_find?_eq_some hfind
    have hread : d.heap.read m.1 = .ok m.2 := by simp [Heap.read, h.listed.stored m hm]
    simp only [map_some, Mod.node, hread, ok_bind]
    split
    · exact rmmodFails_spec h o name
    obtain ⟨hd, hhandle, -⟩ := h.vetted.loaded m hm
    obtain ⟨xs, ys, rfl⟩ := append_of_mem hm
    have hvetted := ((h.vetted.called (.inr ⟨name, rfl⟩)).dlclose hd).closePayload m.2.payloadFd
    have hrest : ∀ m' ∈ xs ++ ys, m' ∈ xs ++ m :: ys :=
      fun m' hm' => ((sublist_cons_self m ys).append_left xs).subset hm'
    have hne : ∀ m' ∈ xs ++ ys, m'.1 ≠ m.1 := by
      have hnd := h.listed.addrs_nodup
      rw [map_append, map_cons, nodup_middle, ← map_append] at hnd
      intro m' hm' heq
      exact (nodup_cons.mp hnd).1 (List.mem_map.mpr ⟨m', hm', heq⟩)
    have hlisted : Listed ((d.emit (.exitCalled name)).dlclose hd) (xs ++ m :: ys) :=
      h.listed.frame rfl fun _ _ => rfl
    simp only [hhandle]
    obtain ⟨links, hdel, hlisted'⟩ := deleteModule_listed (hlisted.closePayload m.2.payloadFd)
    rw [hdel]
    refine .inl ⟨_, rfl,
      .removed rfl xs m ys rfl ?_ hfound ⟨hlisted'.freeInfo hne, ?_⟩ ?_⟩
    · simpa using List.find?_some hfind
    · exact ⟨fun m' hm' => hvetted.loaded m' (hrest m' hm'), hvetted.opened, hvetted.ordered,
        hvetted.sound⟩
    · exact calls_closePayload ((d.emit (.exitCalled name)).dlclose hd) m.2.payloadFd

def Reply.names : Reply → List Bytes
  | .modules entries => entries.map Prod.fst
  | _ => []

theorem lsmodReply_listed (h : Listed d mods) :
    ∃ reply, lsmodReply d = .ok reply ∧ reply.names = mods.map fun m => m.2.moduleName := by
  have hempty := listEmpty_ring h.ring
  rw [map_eq_nil_iff] at hempty
  rw [lsmodReply]
  split
  case isTrue he =>
    obtain rfl := hempty.mp he
    exact ⟨_, rfl, rfl⟩
  case isFalse he =>
    have hentries : (mods.map Mod.node).mapM (lsmodEntry d) =
        .ok (mods.map fun m => (m.2.moduleName, m.2.payloadFullpath)) := by
      rw [mapM_map]
      refine mapM_eq_ok fun m hm => ?_
      simp [lsmodEntry, Mod.node, Heap.read, h.stored m hm]
    rw [listEntries_ring h.ring h.fuel, ok_bind, hentries]
    exact ⟨_, rfl, by simp [Reply.names]⟩

theorem opsLsmod_of_reply {reply : Reply} (h : lsmodReply d = .ok reply) {params : Params}
    (hp : params ≠ .absent) : opsLsmod params d = .ok (0, reply, d) := by
  cases params with
  | absent => exact absurd rfl hp
  | null | text s => simp [opsLsmod, h]

/-! ## The history of requests -/

inductive Done where
  | insmod (name : Bytes) (ret : Int)
  | rmmod (name : Bytes) (ret : Int)
  deriving DecidableEq, Repr

def Request.done : Request → Reply → List Done
  | .insmod _ _, .mods entries => entries.map fun m => .insmod m.modname m.ret
  | .rmmod _ _, .mods entries => entries.map fun m => .rmmod m.modname m.ret
  | _, _ => []

def Request.tokens : Request → List Bytes
  | .insmod (.text msg) _ => strtok isDelim msg
  | .rmmod (.text msg) _ => strtok isDelim msg
  | _ => []

def run (w : World) : Daemon → List Request → Except Fault (List Done × Daemon)
  | d, [] => .ok ([], d)
  | d, req :: reqs => do
    let (_, reply, d) ← serve w d req
    let (hist, d) ← run w d reqs
    .ok (req.done reply ++ hist, d)

/-- `name` was insmod'ed with success and not rmmod'ed with success since. -/
def LoadedBy (hist : List Done) (name : Bytes) : Prop :=
  ∃ before after, hist = before ++ .insmod name 0 :: after ∧ .rmmod name 0 ∉ after

variable {hist : List Done}

theorem loadedBy_concat {e : Done} :
    LoadedBy (hist ++ [e]) name ↔
      e = .insmod name 0 ∨ (LoadedBy hist name ∧ e ≠ .rmmod name 0) := by
  constructor
  · rintro ⟨before, after, heq, hnot⟩
    rcases eq_nil_or_concat after with rfl | ⟨after, e', rfl⟩
    · obtain ⟨-, hlast⟩ := append_inj' heq rfl
      exact .inl (List.cons.inj hlast).1
    · rw [concat_eq_append] at heq hnot
      rw [← cons_append, ← append_assoc] at heq
      obtain ⟨rfl, hlast⟩ := append_inj' heq rfl
      obtain rfl := (List.cons.inj hlast).1
      simp only [mem_append, mem_singleton, not_or] at hnot
      exact .inr ⟨⟨before, after, rfl, hnot.1⟩, fun he => hnot.2 he.symm⟩
  · rintro (rfl | ⟨⟨before, after, rfl, hnot⟩, hne⟩)
    · exact ⟨hist, [], rfl, by simp⟩
    · refine ⟨before, after ++ [e], by simp, ?_⟩
      simp only [mem_append, mem_singleton, not_or]
      exact ⟨hnot, fun he => hne he.symm⟩

def Tracks (w : World) (d : Daemon) (hist : List Done) : Prop :=
  ∃ mods, Registry w d mods ∧
    ∀ name, name ∈ mods.map (fun m => m.2.moduleName) ↔ LoadedBy hist name

theorem Inserted.tracks (h : Inserted w mods name r)
    (hnames : ∀ n, n ∈ mods.map (fun m => m.2.moduleName) ↔ LoadedBy hist n) :
    Tracks w r.2 (hist ++ [Done.insmod name r.1]) := by
  rcases h with ⟨hret, hreg⟩ | ⟨hret, addr, mi, rfl, hreg⟩
  · refine ⟨mods, hreg, fun n => ?_⟩
    rw [hnames, loadedBy_concat]
    simp [hret]
  · refine ⟨_, hreg, fun n => ?_⟩
    rw [map_cons, mem_cons, hnames, loadedBy_concat, hret]
    simp [eq_comm]

theorem Removed.tracks (hlisted : Listed d mods) (h : Removed w mods name r)
    (hnames : ∀ n, n ∈ mods.map (fun m => m.2.moduleName) ↔ LoadedBy hist n) :
    Tracks w r.2 (hist ++ [Done.rmmod name r.1]) := by
  rcases h with ⟨hret, hreg⟩ | ⟨hret, xs, m, ys, rfl, rfl, hreg⟩
  · refine ⟨mods, hreg, fun n => ?_⟩
    rw [hnames, loadedBy_concat]
    simp [hret]
  · have hnd := hlisted.distinct
    rw [map_append, map_cons, nodup_middle, ← map_append,
      nodup_cons] at hnd
    refine ⟨_, hreg, fun n => ?_⟩
    rw [loadedBy_concat, hret, ← hnames, map_append, map_append, map_cons,
      mem_append, mem_append, mem_cons]
    by_cases hn : n = m.2.moduleName
    · subst hn
      rw [map_append, mem_append] at hnd
      exact iff_of_false hnd.1 (by simp)
    · simp [hn, Ne.symm hn]

/-! ## Whole runs -/

section Tokens

-- An operation that keeps `P` and notes what it did as `mk`, or does not
-- return, for the reason `Q`.
variable {P : Daemon → List Done → Prop} {Q : Prop} (mk : Bytes → Int → Done)
  {op : Nat → Bytes → Daemon → Except Fault (Int × Daemon)} (success failure : String)
  (hop : ∀ i token d hist, token.length < nameMax → P d hist →
    (∃ r, op i token d = .ok r ∧ P r.2 (hist ++ [mk token r.1])) ∨
    (Q ∧ ∃ f, op i token d = .error f))

include hop

theorem eachToken_spec (tokens : List Bytes) (hfit : ∀ t ∈ tokens, t.length < nameMax) (i : Nat)
    {d : Daemon} {hist : List Done} (h : P d hist) :
    (∃ entries d', eachToken op success failure i tokens d = .ok (entries, d') ∧
      P d' (hist ++ entries.map fun m => mk m.modname m.ret)) ∨
    (Q ∧ ∃ f, eachToken op success failure i tokens d = .error f) := by
  induction tokens generalizing i d hist with
  | nil => exact .inl ⟨[], d, rfl, by simpa using h⟩
  | cons token tokens ih =>
    rcases hop i token d hist (hfit token mem_cons_self) h with
      ⟨⟨ret, d₁⟩, hok, h₁⟩ | ⟨hq, f, herr⟩
    · have hfit' : ∀ t ∈ tokens, t.length < nameMax :=
        fun t ht => hfit t (mem_cons_of_mem _ ht)
      rcases ih hfit' (i + 1) h₁ with ⟨entries, d', hrest, h'⟩ | ⟨hq, f, herr⟩
      · refine .inl ⟨modReply success failure token ret :: entries, d', ?_, ?_⟩
        · simp only [eachToken, hok, hrest, ok_bind]
        · simpa [modReply] using h'
      · exact .inr ⟨hq, f, by simp only [eachToken, hok, herr, ok_bind, error_bind]⟩
    · exact .inr ⟨hq, f, by simp only [eachToken, herr, error_bind]⟩

theorem opsTokens_spec {done : Reply → List Done}
    (hdone : ∀ entries, done (.mods entries) = entries.map fun m => mk m.modname m.ret)
    (hnone : done .nothing = [] ∧ done .emptyInput = []) (params : Params)
    (hfit : ∀ msg, params = .text msg → ∀ t ∈ strtok isDelim msg, t.length < nameMax)
    {d : Daemon} {hist : List Done} (h : P d hist) :
    (∃ ret reply d', opsTokens op success failure params d = .ok (ret, reply, d') ∧
      P d' (hist ++ done reply)) ∨
    (Q ∧ ∃ f, opsTokens op success failure params d = .error f) := by
  cases params with
  | absent => exact .inl ⟨-1, .nothing, d, rfl, by simpa [hnone.1] using h⟩
  | null => exact .inl ⟨0, .emptyInput, d, rfl, by simpa [hnone.2] using h⟩
  | text msg =>
    rcases eachToken_spec mk success failure hop (strtok isDelim msg) (hfit msg rfl) 0 h with
      ⟨entries, d', hok, h'⟩ | ⟨hq, f, herr⟩
    · exact .inl ⟨0, .mods entries, d', by simp only [opsTokens, hok, ok_bind], by rwa [hdone]⟩
    · exact .inr ⟨hq, f, by simp only [opsTokens, herr, error_bind]⟩

end Tokens

/-- Why a request may end the daemon: the signature check does not return on the image
that one of its archives holds, or a log call of rmmod prints a pointer it was not given. -/
def Interrupted (w : World) : Request → Prop
  | .insmod _ o => ∃ i image f, (o i).archive.image = some image ∧
      doSaftyVerifySign w.env (some publicKeyPath) (some image) = .error f
  | .rmmod _ o => ∃ i, (o i).strayArg = false
  | .lsmod _ => False

/-- One request keeps the registry in step with the history, or is interrupted. -/
theorem serve_spec (h : Tracks w d hist) (req : Request)
    (hfit : ∀ t ∈ req.tokens, t.length < nameMax) :
    (∃ ret reply d', serve w d req = .ok (ret, reply, d') ∧
      Tracks w d' (hist ++ req.done reply)) ∨
    (Interrupted w req ∧ ∃ f, serve w d req = .error f) := by
  cases req with
  | insmod params o =>
    refine opsTokens_spec .insmod _ _ ?_ (fun _ => rfl) ⟨rfl, rfl⟩ params ?_ h
    · rintro i token d hist hlen ⟨mods, hreg, hnames⟩
      rcases doOneInsmod_spec hreg (o i) hlen with ⟨r, hok, hins⟩ | ⟨image, f, hin, hv, herr⟩
      · exact .inl ⟨r, hok, hins.tracks hnames⟩
      · exact .inr ⟨⟨i, image, f, hin, hv⟩, f, herr⟩
    · rintro msg rfl
      exact hfit
  | rmmod params o =>
    refine opsTokens_spec .rmmod _ _ ?_ (fun _ => rfl) ⟨rfl, rfl⟩ params ?_ h
    · rintro i token d hist hlen ⟨mods, hreg, hnames⟩
      rcases doOneRmmod_spec hreg (o i) token with ⟨r, hok, hrem⟩ | ⟨hs, f, herr⟩
      · exact .inl ⟨r, hok, hrem.toRemoved.tracks hreg.listed hnames⟩
      · exact .inr ⟨⟨i, hs⟩, f, herr⟩
    · rintro msg rfl
      exact hfit
  | lsmod params =>
    obtain ⟨mods, hreg, hnames⟩ := h
    obtain ⟨reply, hreply, -⟩ := lsmodReply_listed hreg.listed
    refine .inl ?_
    by_cases hp : params = .absent
    · subst hp
      exact ⟨-1, .nothing, d, rfl, mods, hreg, by simpa [Request.done] using hnames⟩
    · refine ⟨0, reply, d, opsLsmod_of_reply hreply hp, mods, hreg, ?_⟩
      simpa [Request.done] using hnames

theorem Tracks.boot : Tracks w Daemon.boot [] :=
  ⟨[], Registry.boot, by simp [LoadedBy]⟩

theorem run_tracks {hist hist' : List Done} {reqs : List Request} (h : Tracks w d hist)
    (hfit : ∀ req ∈ reqs, ∀ t ∈ req.tokens, t.length < nameMax)
    (hrun : run w d reqs = .ok (hist', d')) : Tracks w d' (hist ++ hist') := by
  induction reqs generalizing d hist hist' with
  | nil =>
    cases hrun
    simpa using h
  | cons req reqs ih =>
    rcases serve_spec h req (hfit req mem_cons_self) with
      ⟨ret, reply, d₁, hok, h₁⟩ | ⟨-, f, herr⟩
    · simp only [run, hok, ok_bind] at hrun
      obtain ⟨⟨hist₁, d₂⟩, hrest, hret⟩ := bind_eq_ok.mp hrun
      cases hret
      have := ih h₁ (fun req' hreq => hfit req' (mem_cons_of_mem _ hreq)) hrest
      rwa [← append_assoc]
    · simp only [run, herr, error_bind] at hrun
      cases hrun

/-- **The registry is exact**: after every run the module list is a ring through the modules that
the history of requests left loaded, `lsmod` reports them, each is code that passed the signature
check before it was mapped, and the next request returns unless it is interrupted. -/
theorem registry_exact (w : World) (reqs : List Request) (hist : List Done) (d : Daemon)
    (hfit : ∀ req ∈ reqs, ∀ t ∈ req.tokens, t.length < nameMax)
    (hrun : run w Daemon.boot reqs = .ok (hist, d)) :
    ∃ mods : List Mod,
      Ring d.links .moduleListHead (mods.map Mod.node) ∧
      (∀ m ∈ mods, d.heap.get? m.1 = some m.2) ∧
      (mods.map fun m => m.2.moduleName).Nodup ∧
      (∃ reply, reply.names = mods.map (fun m => m.2.moduleName) ∧
        ∀ params, params ≠ .absent → opsLsmod params d = .ok (0, reply, d)) ∧
      (∀ name, name ∈ mods.map (fun m => m.2.moduleName) ↔ LoadedBy hist name) ∧
      (∀ m ∈ mods, ∃ h, m.2.dlHandle = some h ∧ .mapped h ∈ d.log ∧
        doSaftyVerifySign w.env (some publicKeyPath) (some h.image) = .ok 0) ∧
      (∀ newer h older, d.log = newer ++ .mapped h :: older → .verified h.image 0 ∈ older) ∧
      (∀ req : Request, (∀ t ∈ req.tokens, t.length < nameMax) →
        (∃ out, serve w d req = .ok out) ∨ Interrupted w req) := by
  obtain ⟨mods, hreg, hnames⟩ := run_tracks Tracks.boot hfit hrun
  obtain ⟨reply, hreply, hreported⟩ := lsmodReply_listed hreg.listed
  refine ⟨mods, hreg.listed.ring, hreg.listed.stored, hreg.listed.distinct,
    ⟨reply, hreported, fun params hp => opsLsmod_of_reply hreply hp⟩, hnames, ?_,
    hreg.vetted.ordered, ?_⟩
  · intro m hm
    obtain ⟨h, hhandle, hmapped⟩ := hreg.vetted.loaded m hm
    obtain ⟨newer, older, hlog⟩ := append_of_mem hmapped
    have hin := hreg.vetted.ordered newer h older hlog
    refine ⟨h, hhandle, hmapped, hreg.vetted.sound h.image ?_⟩
    rw [hlog]
    exact mem_append_right _ (mem_cons_of_mem _ hin)
  · intro req hreq
    rcases serve_spec ⟨mods, hreg, hnames⟩ req hreq with ⟨ret, reply, d', hok, -⟩ | ⟨hint, -⟩
    · exact .inl ⟨_, hok⟩
    · exact .inr hint

theorem le_foldr_add {a : Nat} {used : List Nat} (h : a ∈ used) : a ≤ used.foldr Nat.add 0 := by
  induction used with
  | nil => cases h
  | cons b used ih =>
    show a ≤ b + used.foldr Nat.add 0
    rcases mem_cons.mp h with rfl | hin
    · omega
    · have hle := ih hin
      omega

def trustingWorld : World where
  env := ⟨⟨fun _ _ sig => if sig = [] then 1 else 0, by simp⟩, fun _ => none⟩
  allocator := ⟨fun used => used.foldr Nat.add 0 + 1, fun used hin => by
    have hle := le_foldr_add hin
    omega⟩
  payloadDir := lit "/payload"

def signedPayload : Bytes :=
  [0x7f, 0x45, 0x4c, 0x46] ++ List.replicate 16 0 ++ lit "CTFORGE" ++ [0, 1, 0, 0, 0, 7] ++
    List.replicate 127 0

def loads (fd id : Nat) : Insmod where
  archive := ⟨true, some fd, true, [], some (signedPayload, true), true⟩
  dlopen := .maps id
  initSym := true
  exitSym := true
  initResult := .object none

def loadTwoUnloadOne : List Request :=
  [.insmod (.text (lit "a b")) fun i => loads (3 + i) i,
    .rmmod (.text (lit "a")) fun _ => ⟨true⟩]

theorem registry_exact_two_loaded_one_left :
    ∃ d, run trustingWorld Daemon.boot loadTwoUnloadOne =
        .ok ([.insmod (lit "a") 0, .insmod (lit "b") 0, .rmmod (lit "a") 0], d) ∧
      ∃ mods : List Mod, Ring d.links .moduleListHead (mods.map Mod.node) ∧
        lit "b" ∈ mods.map (fun m => m.2.moduleName) := by
  have hdone : (run trustingWorld Daemon.boot loadTwoUnloadOne).toOption.map Prod.fst =
      some [.insmod (lit "a") 0, .insmod (lit "b") 0, .rmmod (lit "a") 0] := by decide +kernel
  cases hrun : run trustingWorld Daemon.boot loadTwoUnloadOne with
  | error f =>
    rw [hrun] at hdone
    cases hdone
  | ok out =>
    obtain ⟨hist, d⟩ := out
    rw [hrun] at hdone
    obtain rfl := some.inj hdone
    obtain ⟨mods, hring, -, -, -, hnames, -⟩ :=
      registry_exact trustingWorld loadTwoUnloadOne _ d (by decide) hrun
    exact ⟨d, rfl, mods, hring, (hnames (lit "b")).mpr ⟨[_], [_], rfl, by decide⟩⟩

end CtForge.Payload
