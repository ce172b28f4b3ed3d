import CtForge.Agent.FileReplies

/-!
# Paths that `safe_path` lets pass (`files.c`)

The path goes through three buffers of 1024 bytes, of which only the last two are always
terminated. What is checked and what is given out are both the first 1023 bytes of the first.
-/

namespace CtForge.Agent

open CLang List

/-- `strncpy(dst, src, n)`. -/
def strncpy (dst src : Bytes) (n : Nat) : Bytes :=
  cString (src.take n) ++ replicate (n - (cString (src.take n)).length) 0 ++ dst.drop n

/-- `safe_path` with its buffers, which hold anything before: what is left in `out`, or none
where it returns -1. -/
def safePathInto (buf tmp out path : Bytes) : Option Bytes :=
  if path.isEmpty then none
  else
    let text := snprintf 1024 (47 :: path)
    let buf := if path.head? == some 47 then strncpy buf path 1023
      else text ++ 0 :: buf.drop (text.length + 1)
    let tmp := (strncpy tmp buf 1023).set 1023 0
    if (strtok (· == 47) (cString tmp)).contains (lit "..") then none
    else some ((strncpy out buf (out.length - 1)).set (out.length - 1) 0)

def NoParent (path : Bytes) : Prop := path.head? = some 47 ∧ lit ".." ∉ path.splitOn 47

/-- The path that is checked, before its end is cut off. -/
def rooted (path : Bytes) : Bytes := if path.head? == some 47 then path else 47 :: path

def Act.paths : Act → List Bytes
  | .list p | .read p _ | .write p _ _ | .remove p | .mkdir p => [p]
  | .rename p q => [p, q]
  | .run _ _ _ | .feed _ => []

variable {path : Bytes}

theorem noParent_of_strtok (hroot : path.head? = some 47)
    (h : (strtok (· == 47) path).contains (lit "..") = false) : NoParent path := by
  refine ⟨hroot, fun hmem => ?_⟩
  have hseg : lit ".." ∈ strtok (· == 47) path := mem_filter.mpr ⟨hmem, by decide⟩
  rw [contains_iff_mem.mpr hseg] at h
  cases h

theorem rooted_head (path : Bytes) : ((rooted path).take 1023).head? = some 47 := by
  unfold rooted
  split
  · rename_i h
    simpa [head?_take] using h
  · rfl

theorem safePath_eq (path : Bytes) : safePath path =
    if path.isEmpty then none
    else if (strtok (· == 47) ((rooted path).take 1023)).contains (lit "..") then none
    else some ((rooted path).take 1023) := by
  unfold safePath rooted snprintf
  split_ifs <;> simp_all [take_take]

theorem safePath_noParent {sp : Bytes} (h : safePath path = some sp) : NoParent sp := by
  rw [safePath_eq] at h
  split_ifs at h with _ hparent
  cases h
  exact noParent_of_strtok (rooted_head path) (Bool.eq_false_iff.mpr hparent)

theorem cString_append {s : Bytes} (hs : 0 ∉ s) (t : Bytes) : cString (s ++ t) = s ++ cString t :=
  takeWhile_append_of_pos fun c hc => by simpa using ne_of_mem_of_not_mem hc hs

theorem cString_zeros {s : Bytes} (hs : 0 ∉ s) (k : Nat) : cString (s ++ replicate k 0) = s := by
  have hzeros : cString (replicate k 0) = [] := by cases k <;> rfl
  rw [cString_append hs, hzeros, append_nil]

/-- The last byte, which `strncpy` leaves as it is, is set behind it. -/
theorem strncpy_set {dst : Bytes} (hdst : dst.length = 1024) (src : Bytes) :
    (strncpy dst src 1023).set 1023 0 = cString (src.take 1023) ++
      replicate (1024 - (cString (src.take 1023)).length) 0 := by
  have hlen : (cString (src.take 1023)).length ≤ 1023 :=
    (cString_length_le _).trans (length_take_le 1023 src)
  obtain ⟨b, hb⟩ : ∃ b, dst.drop 1023 = [b] := length_eq_one_iff.mp (by simp [hdst])
  rw [strncpy, hb]
  generalize cString (src.take 1023) = s at hlen ⊢
  have hlast : (s ++ replicate (1023 - s.length) (0 : UInt8)).length = 1023 := by simp; omega
  rw [set_append_right _ _ hlast.le, hlast, append_assoc]
  congr 1
  rw [show 1024 - s.length = 1023 - s.length + 1 by omega, replicate_succ']
  rfl

/-- Of the first buffer only 1023 bytes are read, and these hold the path. -/
theorem buf_take (hpath : 0 ∉ path) (buf : Bytes) :
    cString ((if path.head? == some 47 then strncpy buf path 1023
      else snprintf 1024 (47 :: path) ++
        0 :: buf.drop ((snprintf 1024 (47 :: path)).length + 1)).take 1023) =
      (rooted path).take 1023 := by
  unfold rooted
  split
  · have hnul : 0 ∉ path.take 1023 := fun h => hpath (mem_of_mem_take h)
    rw [strncpy, cString_eq_self hnul, take_append_of_le_length (by simp),
      take_of_length_le (by simp)]
    exact cString_zeros hnul _
  · have hnul : 0 ∉ snprintf 1024 (47 :: path) := fun h => by
      simpa [hpath] using mem_of_mem_take h
    rw [take_append, take_of_length_le (by simp [snprintf]), cString_append hnul]
    cases 1023 - (snprintf 1024 (47 :: path)).length with
    | zero => exact append_nil _
    | succ k => exact append_nil _

theorem zero_not_mem_rooted (hpath : 0 ∉ path) : 0 ∉ (rooted path).take 1023 := by
  intro h
  have hmem := mem_of_mem_take h
  unfold rooted at hmem
  split at hmem <;> simp_all

/-- What `safe_path` leaves in `out`, whatever the buffers held. -/
theorem safePathInto_eq {tmp out : Bytes} (htmp : tmp.length = 1024)
    (hout : out.length = 1024) (hpath : 0 ∉ path) (buf : Bytes) :
    safePathInto buf tmp out path =
      (safePath path).map fun sp => sp ++ replicate (1024 - sp.length) 0 := by
  rw [safePathInto, safePath_eq]
  dsimp only
  rw [hout, strncpy_set htmp, strncpy_set hout, buf_take hpath,
    cString_zeros (zero_not_mem_rooted hpath)]
  split_ifs <;> rfl

theorem safePath_bytes {sp : Bytes} (hpath : 0 ∉ path) (h : safePath path = some sp) :
    0 ∉ sp ∧ sp.length ≤ 1023 := by
  rw [safePath_eq] at h
  split_ifs at h
  cases h
  exact ⟨zero_not_mem_rooted hpath, length_take_le 1023 _⟩

/-- The host is asked for no path with a parent segment. -/
def AsksInside (r : Except Fault Response) : Prop :=
  ∀ a, r = .ok (.act a) → ∀ path ∈ a.paths, NoParent path

theorem asksInside_reply (payload : Bytes) : AsksInside (.ok (.reply payload)) := by
  rintro a ⟨⟩

/-- A handler asks inside if whatever it goes on with does. -/
theorem AsksInside.bind {α : Type} {x : Except Fault α} {f : α → Except Fault Response}
    (h : ∀ v, AsksInside (f v)) : AsksInside (x >>= f) := by
  intro a ha
  obtain ⟨v, -, hv⟩ := bind_eq_ok.mp ha
  exact h v a hv

theorem asksInside_withPath {act : Bytes → Act} (h : ∀ sp, (act sp).paths = [sp]) (path : Bytes) :
    AsksInside (.ok (withPath path act)) := by
  unfold withPath
  split
  · exact asksInside_reply _
  · rename_i sp hsp
    rintro a ⟨⟩
    rw [h]
    exact forall_mem_singleton.mpr (safePath_noParent hsp)

theorem asksInside_fileSimple {act : Bytes → Act} (h : ∀ sp, (act sp).paths = [sp])
    (json : Bytes) : AsksInside (fileSimple act json) := by
  refine .bind fun path => ?_
  cases path with
  | none => exact asksInside_reply _
  | some path => exact asksInside_withPath h _

theorem asksInside_fileWrite (json : Bytes) : AsksInside (fileWrite json) := by
  refine .bind fun path => ?_
  cases path with
  | none => exact asksInside_reply _
  | some path =>
    refine .bind fun b64 => ?_
    cases b64 with
    | none => exact asksInside_reply _
    | some b64 =>
      dsimp only
      cases hsp : safePath path with
      | none => exact asksInside_reply _
      | some sp =>
        cases base64Decode b64 with
        | none => exact asksInside_reply _
        | some data =>
          rintro a ⟨⟩
          exact forall_mem_singleton.mpr (safePath_noParent hsp)

theorem asksInside_fileRename (json : Bytes) : AsksInside (fileRename json) := by
  refine .bind fun src => ?_
  cases src with
  | none => exact asksInside_reply _
  | some src =>
    refine .bind fun dst => ?_
    cases dst with
    | none => exact asksInside_reply _
    | some dst =>
      dsimp only
      cases hsf : safePath src with
      | none => exact asksInside_reply _
      | some sf =>
        cases hst : safePath dst with
        | none => exact asksInside_reply _
        | some st =>
          rintro a ⟨⟩
          exact forall_mem_cons.mpr
            ⟨safePath_noParent hsf, forall_mem_singleton.mpr (safePath_noParent hst)⟩

theorem asksInside_fileList (payload : Option Bytes) : AsksInside (handleFileList payload) := by
  cases payload with
  | none => exact asksInside_withPath (fun _ => rfl) _
  | some json => exact .bind fun path => asksInside_withPath (fun _ => rfl) _

theorem asksInside_fileRead (payload : Option Bytes) : AsksInside (handleFileRead payload) := by
  cases payload with
  | none => exact asksInside_withPath (fun _ => rfl) _
  | some json => exact .bind fun path => asksInside_withPath (fun _ => rfl) _

/-- Whatever the buffers hold, what `safe_path` gives out ends inside its buffer and has no parent
segment, and the six commands on files ask for no other path. -/
theorem passed_paths_have_no_parent :
    (∀ buf tmp out path res : Bytes, tmp.length = 1024 → out.length = 1024 → 0 ∉ path →
      safePathInto buf tmp out path = some res →
        res.length = 1024 ∧ res[1023]? = some 0 ∧ NoParent (cString res)) ∧
    ∀ (payload : Option Bytes) (json : Bytes),
      ∀ r ∈ [handleFileList payload, handleFileRead payload, fileWrite json,
          fileSimple .remove json, fileRename json, fileSimple .mkdir json],
        ∀ a, r = .ok (.act a) → ∀ path ∈ a.paths, NoParent path := by
  constructor
  · intro buf tmp out path res htmp hout hpath hres
    rw [safePathInto_eq htmp hout hpath, Option.map_eq_some_iff] at hres
    obtain ⟨sp, hsp, rfl⟩ := hres
    obtain ⟨hnul, hlen⟩ := safePath_bytes hpath hsp
    refine ⟨by simp; omega, ?_, ?_⟩
    · rw [getElem?_append_right hlen, getElem?_replicate, if_pos (by omega)]
    · rw [cString_zeros hnul]
      exact safePath_noParent hsp
  · intro payload json
    simp only [forall_mem_cons]
    exact ⟨asksInside_fileList _, asksInside_fileRead _, asksInside_fileWrite _,
      asksInside_fileSimple (fun _ => rfl) _, asksInside_fileRename _,
      asksInside_fileSimple (fun _ => rfl) _, forall_mem_nil _⟩

theorem relative_path_passes : NoParent (cString (lit "/a..b/c" ++ replicate (1024 - 7) 0)) :=
  (passed_paths_have_no_parent.1 [] (replicate 1024 1) (replicate 1024 1) (lit "a..b/c") _
    length_replicate length_replicate (by decide)
    (safePathInto_eq length_replicate length_replicate (by decide) [])).2.2

end CtForge.Agent
