import CtForge.Lib.JsonReads
import CtForge.Agent.Send
import CtForge.Agent.FileReplies

/-!
# What a listing says (`ctc_file_list_json`)

The name of an entry is escaped, its path is not; a record is formatted into 1024 bytes and as many
bytes are copied from there as it would have had. The converse of the main result weighs the reply:
what is read of it costs more than it pays for as soon as a pasted text needs an escape.
-/

namespace CtForge.Agent

open CLang Json List Option

/-- `ctc_file_list_json`. -/
def FileHost.listPath (host : FileHost) (path : Bytes) : Except Fault Bytes :=
  match safePath path with
  | none => .ok (errorText "invalid path")
  | some sp => host.fileList sp

/-! ## What a listing should say -/

def entryPath (sp name : Bytes) : Bytes :=
  sp ++ (if sp.getLast? == some 47 then [] else [47]) ++ name

/-- The entries other than the two dots that `lstat` does not fail on. -/
def FileHost.entries (host : FileHost) (sp : Bytes) (names : List (CString 256)) :
    List (Bytes × FileStat) :=
  (names.filter fun e => e.bytes != [46] && e.bytes != [46, 46]).filterMap fun e =>
    (host.lstat (entryPath sp e.bytes)).map (e.bytes, ·)

def entryValue (sp : Bytes) (e : Bytes × FileStat) : Value :=
  .obj [(lit "name", .str e.1), (lit "path", .str (entryPath sp e.1)),
    (lit "is_dir", .bool e.2.isDir), (lit "size", .num (decimal e.2.size)),
    (lit "mode", .str e.2.modeStr), (lit "mod_time", .num (int64 e.2.mtime))]

def listingValue (sp : Bytes) (entries : List (Bytes × FileStat)) : Value :=
  .obj [(lit "path", .str sp), (lit "files", .arr (entries.map (entryValue sp)))]

/-! ## Records -/

/-- The records as they are formatted: every one but the first behind a comma. -/
def records : List Bytes → List Bytes
  | [] => []
  | item :: rest => item :: rest.map (44 :: ·)

/-- What is copied of a record that is not longer than `item[1024]`. -/
def copied (item : Bytes) : Bytes := (snprintf 1024 item ++ [0]).take item.length

theorem records_flatten (items : List Bytes) : (records items).flatten = commaSep items := by
  cases items with
  | nil => rfl
  | cons item rest => simp [records, commaSep, List.flatMap]

theorem copyItem_iff {item x : Bytes} :
    copyItem item = .ok x ↔ item.length ≤ 1024 ∧ copied item = x := by
  have hlen : (snprintf 1024 item ++ [0]).length = min 1023 item.length + 1 := by
    rw [snprintf, length_append, length_take, length_singleton]
  by_cases hle : item.length ≤ 1024
  · rw [copyItem, readAt_of_le (by omega), drop_zero, ← copied, Except.ok.injEq]
    exact ⟨fun h => ⟨hle, h⟩, And.right⟩
  · rw [copyItem, readAt_of_lt (by omega)]
    exact ⟨(fun h => by cases h), fun h => absurd h.1 hle⟩

theorem copied_eq_self {item : Bytes} (h : item.length ≤ 1023) : copied item = item := by
  rw [copied, snprintf_eq_self (by omega), take_left]

/-- A record that fills the buffer: the byte that ends it is copied in place of its last. -/
theorem copied_full {item : Bytes} {c : UInt8} (h : (item ++ [c]).length = 1024) :
    copied (item ++ [c]) = item ++ [0] := by
  have hlen : item.length = 1023 := by simpa using h
  have htext : snprintf 1024 (item ++ [c]) = item := by
    rw [snprintf, take_append_of_le_length (by omega), take_of_length_le (by omega)]
  rw [copied, htext]
  exact take_of_length_le (by simp)

theorem mapM_copyItem_iff {items xs : List Bytes} :
    items.mapM copyItem = .ok xs ↔ (∀ item ∈ items, item.length ≤ 1024) ∧
      items.map copied = xs := by
  induction items generalizing xs with
  | nil => simp [Except.ok.injEq]
  | cons item items ih =>
    rw [mapM_cons, bind_eq_ok, forall_mem_cons, map_cons]
    constructor
    · rintro ⟨x, hx, h⟩
      obtain ⟨ys, hys, h⟩ := bind_eq_ok.mp h
      obtain ⟨hle, rfl⟩ := copyItem_iff.mp hx
      obtain ⟨hall, rfl⟩ := ih.mp hys
      exact ⟨⟨hle, hall⟩, Except.ok.inj h⟩
    · rintro ⟨⟨hle, hall⟩, rfl⟩
      refine ⟨_, copyItem_iff.mpr ⟨hle, rfl⟩, ?_⟩
      rw [ih.mpr ⟨hall, rfl⟩]
      rfl

/-- The copy stays inside exactly if no record needs more than its buffer. -/
theorem copyItems_iff {items : List Bytes} {text : Bytes} :
    copyItems items = .ok text ↔
      (∀ r ∈ records items, r.length ≤ 1024) ∧ (records items).flatMap copied = text := by
  have hrecords : copyItems items =
    (records items).mapM copyItem >>= fun xs => pure xs.flatten := by
    cases items with
    | nil => rfl
    | cons item rest =>
      rw [copyItems, records, mapM_cons, mapM_map]
      change (do
        let first ← copyItem item
        let others ← rest.mapM (copyItem ∘ (44 :: ·))
        return first ++ others.flatten) = _
      cases copyItem item with
      | error e => rfl
      | ok x =>
        cases rest.mapM (copyItem ∘ (44 :: ·)) with
        | error e | ok xs => rfl
  rw [hrecords, bind_eq_ok]
  constructor
  · rintro ⟨xs, hxs, h⟩
    obtain ⟨hall, rfl⟩ := mapM_copyItem_iff.mp hxs
    exact ⟨hall, Except.ok.inj h⟩
  · rintro ⟨hall, rfl⟩
    exact ⟨_, mapM_copyItem_iff.mpr ⟨hall, rfl⟩, rfl⟩

/-! ## When a listing says it -/

/-- The path of the directory and the names are texts that need no escape, no path of an entry is
cut unless there is nothing behind it either way, and the records fit `item[1024]`. -/
structure Listable (host : FileHost) (sp : Bytes) (names : List (CString 256)) : Prop where
  dir : LiteralText sp
  path : ∀ e ∈ names, e.bytes ≠ [46] → e.bytes ≠ [46, 46] → (entryPath sp e.bytes).length < 1200 ∨
    host.lstat (fullPath sp e.bytes) = none ∧ host.lstat (entryPath sp e.bytes) = none
  name : ∀ e ∈ host.entries sp names, LiteralText e.1
  record : ∀ r ∈ records ((host.entries sp names).map (fileItem sp)), r.length ≤ 1023

theorem literal_entryPath {sp name : Bytes} (hsp : LiteralText sp) (hname : LiteralText name) :
    LiteralText (entryPath sp name) := by
  refine (hsp.append ?_).append hname
  split
  · exact .nil
  · exact ⟨['/'], by decide, by decide⟩

example : escapeName 0 (lit "a\"b") = lit "a\\\"b" := by decide +kernel

theorem escapeName_eq_self {s : Bytes} (h : ∀ c ∈ s, isPlain c = true) {j : Nat}
    (hlen : j + s.length ≤ 510) : escapeName j s = s := by
  induction s generalizing j with
  | nil => rfl
  | cons c s ih =>
    obtain ⟨hc, hs⟩ := forall_mem_cons.mp h
    obtain ⟨hquote, hback, -⟩ := plain_facts hc
    rw [length_cons] at hlen
    rw [escapeName, if_neg (by omega), if_neg (by simp [hquote, hback]), ih hs (by omega)]

/-- The mode of a file needs no escape. -/
theorem modeStr_plain (st : FileStat) : isPlainText st.modeStr = true := by
  have hflag : ∀ (mode bit : UInt32) {c : UInt8}, (isPlain c && decide (c < 128)) = true →
      (isPlain (flag mode bit c) && decide (flag mode bit c < 128)) = true := by
    intro mode bit c hc
    unfold flag
    split
    · rfl
    · exact hc
  have hkind : ∀ c ∈ [100, 108, 45], (isPlain c && decide (c < 128)) = true := by
    simp only [forall_mem_cons]
    exact ⟨rfl, rfl, rfl, forall_mem_nil _⟩
  simp only [isPlainText, FileStat.modeStr, all_cons, all_nil, hflag _ _ (c := 114) rfl,
    hflag _ _ (c := 119) rfl, hflag _ _ (c := 120) rfl, Bool.and_true]
  refine hkind _ ?_
  split_ifs <;> simp

variable {sp : Bytes} {e : Bytes × FileStat}

/-- How a record is read whose texts need no escapes but may have bytes that are no UTF-8. -/
def readEntry (sp : Bytes) (e : Bytes × FileStat) : Value :=
  .obj [(lit "name", .str (readAs e.1)), (lit "path", .str (readAs (entryPath sp e.1))),
    (lit "is_dir", .bool e.2.isDir), (lit "size", .num (decimal e.2.size)),
    (lit "mode", .str e.2.modeStr), (lit "mod_time", .num (int64 e.2.mtime))]

theorem decodes_fileItem (hsp : ∀ c ∈ entryPath sp e.1, isPlain c = true)
    (hshort : e.1.length < 256) (hfull : fullPath sp e.1 = entryPath sp e.1) :
    Decodes (fileItem sp e) (readEntry sp e) := by
  have hname : ∀ c ∈ e.1, isPlain c = true := fun c hc => hsp c (mem_append_right _ hc)
  rw [fileItem, escapeName_eq_self hname (by omega), hfull]
  exact decodes_object (member_cons (decodes_readAs (body_of_plain hname))
    (member_cons (decodes_readAs (body_of_plain hsp))
    (member_cons (decodes_bool _)
    (member_cons (decodes_decimal _)
    (member_cons (decodes_plain (modeStr_plain e.2))
    (member_cons (decodes_decimalInt _) .nil))))))

variable {names : List (CString 256)} {host : FileHost}

/-! ### What is listed -/

theorem long_item (h : 1200 ≤ (entryPath sp e.1).length) : 1024 < (fileItem sp e).length := by
  have hcut : (fullPath sp e.1).length = 1199 := by
    rw [fullPath, snprintf, length_take]
    exact min_eq_left (by unfold entryPath at h; omega)
  rw [fileItem, length_object (cons_ne_nil _ _)]
  simp only [map_cons, valuesLength, length_string, hcut]
  omega

theorem mem_listed : e ∈ host.listed sp names ↔ ∃ n ∈ names, n.bytes ≠ [46] ∧ n.bytes ≠ [46, 46] ∧
    host.lstat (fullPath sp n.bytes) = some e.2 ∧ n.bytes = e.1 := by
  obtain ⟨name, st⟩ := e
  simp [FileHost.listed, mem_filterMap, mem_filter, and_assoc]

theorem mem_entries : e ∈ host.entries sp names ↔ ∃ n ∈ names, n.bytes ≠ [46] ∧
    n.bytes ≠ [46, 46] ∧ host.lstat (entryPath sp n.bytes) = some e.2 ∧ n.bytes = e.1 := by
  obtain ⟨name, st⟩ := e
  simp [FileHost.entries, mem_filterMap, mem_filter, and_assoc]

theorem fullPath_of_fits (h : (fileItem sp e).length ≤ 1024) :
    fullPath sp e.1 = entryPath sp e.1 := by
  refine snprintf_eq_self (Nat.lt_of_not_le fun hlong => ?_)
  exact absurd (long_item hlong) (Nat.not_lt.mpr h)

theorem filterMap_sublist {α β : Type} {f g : α → Option β} {l : List α}
    (h : ∀ a ∈ l, f a = none ∨ f a = g a) : l.filterMap f <+ l.filterMap g := by
  induction l with
  | nil => exact .slnil
  | cons a l ih =>
    obtain ⟨ha, hl⟩ := forall_mem_cons.mp h
    rw [filterMap_cons, filterMap_cons]
    rcases ha with ha | ha
    · rw [ha]
      cases g a with
      | none => exact ih hl
      | some b => exact (ih hl).cons b
    · rw [ha]
      cases g a with
      | none => exact ih hl
      | some b => exact (ih hl).cons_cons b

theorem listed_sublist (h : ∀ e ∈ host.listed sp names, (fileItem sp e).length ≤ 1024) :
    host.listed sp names <+ host.entries sp names := by
  refine filterMap_sublist fun n hn => ?_
  obtain ⟨hmem, hdots⟩ := mem_filter.mp hn
  obtain ⟨hdot, hdots⟩ : n.bytes ≠ [46] ∧ n.bytes ≠ [46, 46] := by simpa using hdots
  cases hstat : host.lstat (fullPath sp n.bytes) with
  | none => exact .inl rfl
  | some st =>
    have hlisted : (n.bytes, st) ∈ host.listed sp names :=
      mem_listed.mpr ⟨n, hmem, hdot, hdots, hstat, rfl⟩
    have hfull := fullPath_of_fits (h _ hlisted)
    exact .inr (by rw [← hstat, hfull])

/-! ### What a listing weighs -/

theorem pays_escapeName (j : Nat) (s : Bytes) : weigh pays (escapeName j s) ≤ weigh costs s := by
  induction s generalizing j with
  | nil => exact Nat.zero_le _
  | cons c s ih =>
    rw [escapeName]
    split_ifs with hroom hmark
    · exact Nat.zero_le _
    · have hle := ih (j + 2)
      have hc : pays 92 + pays c ≤ costs c := by
        rcases Bool.or_eq_true_iff.mp hmark with hc | hc <;> rw [beq_iff_eq.mp hc] <;> decide
      simp only [weigh]
      omega
    · have hle := ih (j + 1)
      simp only [weigh, costs]
      omega

theorem pays_digits {s : Bytes} (h : ∀ c ∈ s, isNumberByte c = true) : weigh pays s = 0 :=
  weigh_eq_zero.mpr fun c hc => forall_byte (p := fun c => isNumberByte c = true → pays c = 0)
    (by decide +kernel) c (h c hc)

theorem pays_bool (b : Bool) : weigh pays (Json.bool b) = 0 := by cases b <;> decide

theorem pays_fileItem (hfull : fullPath sp e.1 = entryPath sp e.1) :
    weigh pays (fileItem sp e) + weigh strange (entryPath sp e.1) ≤
      (entryValue sp e).weigh costs := by
  have hname := pays_escapeName 0 e.1
  have hpath := weigh_costs (entryPath sp e.1)
  have hmode := weigh_costs e.2.modeStr
  have hsize : weigh pays (decimal e.2.size) = 0 := pays_digits fun c => isNumberByte_decimal
  have htime : weigh pays (int64 e.2.mtime) = 0 := pays_digits fun c => isNumberByte_decimalInt
  rw [fileItem, hfull, inner_pays.weigh_object (by simp only [forall_mem_cons]; decide)]
  simp only [flatMap_cons, flatMap_nil, append_nil, weigh_append, inner_pays.weigh_string, hsize,
    htime, pays_bool, entryValue, Value.weigh, weighMembers]
  omega

theorem pays_items {es : List (Bytes × FileStat)}
    (h : ∀ e ∈ es, fullPath sp e.1 = entryPath sp e.1) :
    weigh pays (es.map (fileItem sp)).flatten +
      weigh strange (es.flatMap fun e => entryPath sp e.1) ≤
      weighElements costs (es.map (entryValue sp)) := by
  induction es with
  | nil => exact Nat.le_refl _
  | cons e es ih =>
    obtain ⟨he, hes⟩ := forall_mem_cons.mp h
    have hle := ih hes
    have hitem := pays_fileItem he
    simp only [map_cons, flatten_cons, flatMap_cons, weigh_append, weighElements]
    omega

theorem pays_copied (r : Bytes) : weigh pays (copied r) ≤ weigh pays r := by
  have hnul : pays 0 = 0 := rfl
  refine (weigh_take_le _ _).trans ?_
  rw [weigh_append, weigh, weigh, hnul]
  exact weigh_take_le r 1023

theorem pays_records (items : List Bytes) :
    weigh pays ((records items).flatMap copied) ≤ weigh pays items.flatten := by
  have hcopied : ∀ rs : List Bytes, weigh pays (rs.flatMap copied) ≤ weigh pays rs.flatten := by
    intro rs
    induction rs with
    | nil => exact Nat.le_refl _
    | cons r rs ih =>
      rw [flatMap_cons, flatten_cons, weigh_append, weigh_append]
      exact Nat.add_le_add (pays_copied r) ih
  refine (hcopied _).trans ?_
  rw [records_flatten, inner_pays.weigh_commaSep]

/-! ### What a listing that is read says of its texts -/

def listingText (sp items : Bytes) : Bytes :=
  object [("path", string sp), ("files", 91 :: items ++ [93])]

def listingHead (sp : Bytes) : Bytes :=
  string (lit "path") ++ 58 :: (string sp ++ 44 :: (string (lit "files") ++ [58, 91]))

theorem listingText_eq (sp items : Bytes) :
    listingText sp items = 123 :: (listingHead sp ++ items ++ [93, 125]) := by
  simp [listingText, listingHead, object, commaSep, member]

theorem pays_listingText (sp items : Bytes) :
    weigh pays (listingText sp items) = weigh pays sp + weigh pays items := by
  have hbracket : pays 91 = 0 ∧ pays 93 = 0 := by decide
  rw [listingText, inner_pays.weigh_object (by simp only [forall_mem_cons]; decide)]
  simp [weigh, weigh_append, inner_pays.weigh_string, hbracket]

/-- A listing that is read as its entries has no byte in its paths that needs an escape. -/
theorem plain_of_listing {es entries : List (Bytes × FileStat)}
    (hes : ∀ e ∈ es, fullPath sp e.1 = entryPath sp e.1) (hsub : es <+ entries)
    (h : decode (cString (listingText sp ((records (es.map (fileItem sp))).flatMap copied))) =
      some (listingValue sp entries)) :
    (∀ c ∈ sp, isPlain c = true) ∧ ∀ e ∈ es, ∀ c ∈ entryPath sp e.1, isPlain c = true := by
  have hread := weights_costs.weigh_decode h
  have htext : ∀ s : Bytes, weigh pays (cString s) ≤ weigh pays s := fun s => by
    obtain ⟨t, ht⟩ := takeWhile_prefix (l := s) (· ≠ 0)
    have hsum := weigh_append pays (cString s) t
    rw [cString, ht] at hsum
    exact hsum ▸ Nat.le_add_right _ _
  have hcut := htext (listingText sp ((records (es.map (fileItem sp))).flatMap copied))
  have hitems := pays_records (es.map (fileItem sp))
  have hall := pays_items hes
  have hmore := weighElements_sublist (μ := costs) (hsub.map (entryValue sp))
  have hdir := weigh_costs sp
  rw [pays_listingText] at hcut
  simp only [listingValue, Value.weigh, weighMembers] at hread
  have hzero : weigh strange sp = 0 ∧ weigh strange (es.flatMap fun e => entryPath sp e.1) = 0 := by
    omega
  refine ⟨plain_of_strange hzero.1, fun e he c hc => ?_⟩
  exact plain_of_strange hzero.2 c (mem_flatMap.mpr ⟨e, he, hc⟩)

/-! ### Records that fill the buffer -/

theorem cString_append_nul {s : Bytes} (h : 0 ∉ s) (t : Bytes) : cString (s ++ 0 :: t) = s := by
  rw [cString, takeWhile_append_of_pos, takeWhile_cons_of_neg (by simp), append_nil]
  exact fun c hc => decide_eq_true fun heq => h (heq ▸ hc)

theorem fileItem_end (sp : Bytes) (e : Bytes × FileStat) :
    ∃ t d, fileItem sp e = t ++ [d] ++ [125] ∧ isNumberByte d = true := by
  obtain ⟨c, s, htime, -⟩ := (decodes_decimalInt e.2.mtime.toInt).starts []
  rw [append_nil] at htime
  obtain ⟨t, d, hlast⟩ := (eq_nil_or_concat' (decimalInt e.2.mtime.toInt)).resolve_left
    (fun hnil => by rw [hnil] at htime; cases htime)
  have hd : isNumberByte d = true := isNumberByte_decimalInt
    (hlast ▸ mem_append_right t (mem_singleton.mpr rfl) : d ∈ decimalInt e.2.mtime.toInt)
  obtain ⟨u, hu⟩ := object_concat [("name", string (escapeName 0 e.1)),
    ("path", string (fullPath sp e.1)), ("is_dir", Json.bool e.2.isDir), ("size", decimal e.2.size),
    ("mode", string e.2.modeStr)] "mod_time" (int64 e.2.mtime)
  have hitem : fileItem sp e = u ++ int64 e.2.mtime ++ [125] := hu
  exact ⟨u ++ t, d, by rw [hitem, int64, hlast]; simp, hd⟩

theorem mem_records {items : List Bytes} {r : Bytes} (h : r ∈ records items) :
    ∃ item ∈ items, r = item ∨ r = 44 :: item := by
  cases items with
  | nil => cases h
  | cons item rest =>
    rcases mem_cons.mp h with rfl | h
    · exact ⟨_, mem_cons_self, .inl rfl⟩
    · obtain ⟨other, hother, rfl⟩ := mem_map.mp h
      exact ⟨other, mem_cons_of_mem item hother, .inr rfl⟩

theorem length_of_records {items : List Bytes} {n : Nat} (h : ∀ r ∈ records items, r.length ≤ n) :
    ∀ item ∈ items, item.length ≤ n := by
  cases items with
  | nil => exact forall_mem_nil _
  | cons first rest =>
    obtain ⟨hfirst, hrest⟩ := forall_mem_cons.mp h
    refine forall_mem_cons.mpr ⟨hfirst, fun item hitem => ?_⟩
    exact (Nat.le_succ _).trans (hrest _ (mem_map_of_mem hitem))

/-- A listing with a record that fills its buffer is not read as its entries. -/
theorem not_read_of_full {es : List (Bytes × FileStat)} (hsp : ∀ c ∈ sp, isPlain c = true)
    (hitems : ∀ e ∈ es, Json.valid (fileItem sp e) = true) {r : Bytes}
    (hr : r ∈ records (es.map (fileItem sp))) (hfull : r.length = 1024)
    (hall : ∀ r ∈ records (es.map (fileItem sp)), r.length ≤ 1024) :
    decode (cString (listingText sp ((records (es.map (fileItem sp))).flatMap copied))) = none := by
  generalize hrs : records (es.map (fileItem sp)) = rs at hr hall ⊢
  have hform : ∀ r ∈ rs, 0 ∉ r ∧ ∃ t d, r = t ++ [d] ++ [125] ∧ isNumberByte d = true := by
    intro r hr
    obtain ⟨item, hitem, hr⟩ := mem_records (hrs ▸ hr)
    obtain ⟨e, he, rfl⟩ := mem_map.mp hitem
    obtain ⟨t, d, hend, hd⟩ := fileItem_end sp e
    have hnul := nul_not_mem_of_valid (hitems e he)
    rcases hr with rfl | rfl
    · exact ⟨hnul, t, d, hend, hd⟩
    · exact ⟨by simp [hnul], 44 :: t, d, by rw [hend]; rfl, hd⟩
  -- The first record that fills the buffer ends the text.
  obtain ⟨r, hfind⟩ := Option.isSome_iff_exists.mp
    (find?_isSome.mpr ⟨r, hr, decide_eq_true hfull⟩ : (rs.find? (·.length = 1024)).isSome = true)
  obtain ⟨hlen, before, after, rfl, hbefore⟩ := find?_eq_some_iff_append.mp hfind
  obtain ⟨hnul, t, d, rfl, hd⟩ := hform r (by simp)
  have hcopy : before.flatMap copied = before.flatten := by
    rw [← flatMap_id']
    refine flatMap_congr fun x hx => copied_eq_self ?_
    have hle := hall x (mem_append_left _ hx)
    have hne := hbefore x hx
    simp only [Bool.not_eq_true', decide_eq_false_iff_not] at hne
    omega
  have hnone : 0 ∉ before.flatten := fun hmem => by
    obtain ⟨x, hx, hzero⟩ := mem_flatten.mp hmem
    exact (hform x (mem_append_left _ hx)).1 hzero
  have hreply : cString (listingText sp ((before ++ (t ++ [d] ++ [125]) :: after).flatMap copied)) =
      123 :: (listingHead sp ++ before.flatten ++ t) ++ [d] := by
    have hsplit : listingText sp ((before ++ (t ++ [d] ++ [125]) :: after).flatMap copied) =
        (123 :: (listingHead sp ++ before.flatten ++ t) ++ [d]) ++
          0 :: (after.flatMap copied ++ [93, 125]) := by
      rw [listingText_eq, flatMap_append, flatMap_cons, hcopy, copied_full (of_decide_eq_true hlen)]
      simp
    have hhead : 0 ∉ listingHead sp := by
      have hzero : 0 ∉ sp := fun hmem => absurd (hsp 0 hmem) (by decide)
      have hkeys : 0 ∉ string (lit "path") ∧ 0 ∉ string (lit "files") ++ [58, 91] := by decide
      simp only [listingHead, mem_append, mem_cons, not_or]
      simpa [string, hzero] using hkeys
    rw [hsplit]
    refine cString_append_nul ?_ _
    simp only [mem_append, not_or] at hnul
    simp [hhead, hnone, hnul]
  rw [hreply]
  refine if_neg fun hvalid => ?_
  have hstop : ∀ d : UInt8, isNumberByte d = true → ¬ (Json.isBlank d = true ∨ d = 125 ∨ d = 93) :=
    forall_byte (by decide +kernel)
  exact hstop d hd (last_of_valid hvalid)

/-! ### Listings that are read as they should -/

theorem decodes_listing {es : List (Bytes × FileStat)} (hsp : ∀ c ∈ sp, isPlain c = true)
    (hitems : ∀ e ∈ es, Decodes (fileItem sp e) (readEntry sp e)) :
    Decodes (listingText sp (commaSep (es.map (fileItem sp))))
      (.obj [(lit "path", .str (readAs sp)), (lit "files", .arr (es.map (readEntry sp)))]) := by
  have hall : List.Forall₂ Decodes (es.map (fileItem sp)) (es.map (readEntry sp)) := by
    rw [forall₂_map_left_iff, forall₂_map_right_iff, forall₂_same]
    exact hitems
  exact decodes_object (member_cons (decodes_readAs (body_of_plain hsp))
    (member_cons (decodes_array hall) .nil))

theorem copied_records {items : List Bytes} (h : ∀ r ∈ records items, r.length ≤ 1023) :
    (records items).flatMap copied = commaSep items := by
  rw [← records_flatten, ← flatMap_id']
  exact flatMap_congr fun r hr => copied_eq_self (h r hr)

section Reply

variable {path : Bytes} (hpath : safePath path = some sp) (hdir : host.readdir sp = .ok names)

include hpath hdir

theorem listPath_eq_ok {reply : Bytes} : host.listPath path = .ok reply ↔
    (∀ r ∈ records ((host.listed sp names).map (fileItem sp)), r.length ≤ 1024) ∧
      cString (listingText sp ((records ((host.listed sp names).map (fileItem sp))).flatMap copied)) =
        reply := by
  rw [FileHost.listPath, hpath]
  simp only [FileHost.fileList, hdir, bind_eq_ok, copyItems_iff]
  constructor
  · rintro ⟨text, ⟨hall, rfl⟩, h⟩
    exact ⟨hall, Except.ok.inj h⟩
  · rintro ⟨hall, rfl⟩
    exact ⟨_, ⟨hall, rfl⟩, rfl⟩

end Reply

theorem Listable.listed_eq (h : Listable host sp names) :
    host.listed sp names = host.entries sp names := by
  refine filterMap_congr fun n hn => ?_
  obtain ⟨hmem, hdots⟩ := mem_filter.mp hn
  obtain ⟨hdot, hdots⟩ : n.bytes ≠ [46] ∧ n.bytes ≠ [46, 46] := by simpa using hdots
  rcases h.path n hmem hdot hdots with hshort | ⟨hfull, hentry⟩
  · rw [show fullPath sp n.bytes = entryPath sp n.bytes from snprintf_eq_self hshort]
  · rw [hfull, hentry]

/-- The listing of a listable directory is read as its entries. -/
theorem Listable.read (h : Listable host sp names) : Decodes
    (listingText sp (commaSep ((host.entries sp names).map (fileItem sp))))
    (listingValue sp (host.entries sp names)) := by
  have hfits := length_of_records h.record
  have hself : ∀ {s : Bytes}, LiteralText s → readAs s = s := fun hs =>
    (reads_readAs hs.body).unique hs.reads
  have hitems : ∀ e ∈ host.entries sp names, Decodes (fileItem sp e) (readEntry sp e) := by
    intro e he
    obtain ⟨n, -, -, -, -, hn⟩ := mem_entries.mp he
    refine decodes_fileItem (literal_entryPath h.dir (h.name e he)).plain (hn ▸ n.fits) ?_
    exact fullPath_of_fits ((hfits _ (mem_map_of_mem he)).trans (by decide))
  have hentries : (host.entries sp names).map (readEntry sp) =
      (host.entries sp names).map (entryValue sp) := map_congr_left fun e he => by
    rw [readEntry, entryValue, hself (h.name e he), hself (literal_entryPath h.dir (h.name e he))]
  have hread := decodes_listing h.dir.plain hitems
  rwa [hself h.dir, hentries] at hread

/-- A listing that is read as what the directory has comes from texts that need no escapes, and
from records that fit. -/
theorem listable_of_read
    (hall : ∀ r ∈ records ((host.listed sp names).map (fileItem sp)), r.length ≤ 1024)
    (h : decode (cString (listingText sp
      ((records ((host.listed sp names).map (fileItem sp))).flatMap copied))) =
        some (listingValue sp (host.entries sp names))) : Listable host sp names := by
  have hfits : ∀ e ∈ host.listed sp names, (fileItem sp e).length ≤ 1024 := fun e he =>
    length_of_records hall _ (mem_map_of_mem he)
  have hsub := listed_sublist hfits
  obtain ⟨hsp, hpaths⟩ := plain_of_listing (fun e he => fullPath_of_fits (hfits e he)) hsub h
  have hitems : ∀ e ∈ host.listed sp names, Decodes (fileItem sp e) (readEntry sp e) := by
    intro e he
    obtain ⟨n, -, -, -, -, hn⟩ := mem_listed.mp he
    exact decodes_fileItem (hpaths e he) (hn ▸ n.fits) (fullPath_of_fits (hfits e he))
  have hshort : ∀ r ∈ records ((host.listed sp names).map (fileItem sp)), r.length ≤ 1023 := by
    intro r hr
    by_contra hlong
    have hle := hall r hr
    rw [not_read_of_full hsp (fun e he => (hitems e he).valid) hr (by omega) hall] at h
    cases h
  have hread := decodes_listing hsp hitems
  rw [copied_records hshort, cString_eq_self (nul_not_mem_of_valid hread.valid), hread.decode,
    listingValue] at h
  simp only [Option.some.injEq, Value.obj.injEq, cons.injEq, Prod.mk.injEq, Value.str.injEq,
    Value.arr.injEq, true_and, and_true] at h
  obtain ⟨hdir, hentries⟩ := h
  have heq : host.listed sp names = host.entries sp names :=
    hsub.eq_of_length (by simpa using congrArg length hentries)
  have hnames : ∀ e ∈ host.entries sp names, LiteralText e.1 := by
    rw [heq, map_inj_left] at hentries
    intro e he
    have hname : readAs e.1 = e.1 := by
      have hvalue := hentries e he
      simp only [readEntry, entryValue, Value.obj.injEq, cons.injEq, Prod.mk.injEq,
        Value.str.injEq, true_and] at hvalue
      exact hvalue.1
    have hplain : ∀ c ∈ e.1, isPlain c = true := fun c hc =>
      hpaths e (heq ▸ he) c (mem_append_right _ hc)
    exact literal_of_readAs (body_of_plain hplain) hname.symm
  refine ⟨literal_of_readAs (body_of_plain hsp) hdir.symm, fun n hn hdot hdots => ?_, hnames,
    heq ▸ hshort⟩
  by_cases hlong : (entryPath sp n.bytes).length < 1200
  · exact .inl hlong
  have hnone : ∀ st, (n.bytes, st) ∉ host.listed sp names := fun st hmem =>
    absurd (long_item (e := (n.bytes, st)) (Nat.not_lt.mp hlong)) (Nat.not_lt.mpr (hfits _ hmem))
  refine .inr ⟨eq_none_iff_forall_not_mem.mpr fun st hst => ?_,
    eq_none_iff_forall_not_mem.mpr fun st hst => ?_⟩
  · exact hnone st (mem_listed.mpr ⟨n, hn, hdot, hdots, hst, rfl⟩)
  · exact hnone st (heq ▸ mem_entries.mpr ⟨n, hn, hdot, hdots, hst, rfl⟩)

/-- A listing is copied within its buffer and read as one record for each entry, with its name, its
full path, its kind and its size, if and only if the path of the directory and the names are UTF-8
without quotes, backslashes and control characters, no path of an entry is cut, and no record with
its comma is longer than the text that `item[1024]` has room for. -/
theorem listing_exact (host : FileHost) (path sp : Bytes) (hpath : safePath path = some sp)
    (names : List (CString 256)) (hdir : host.readdir sp = .ok names) :
    (∃ reply, host.listPath path = .ok reply ∧
      decode reply = some (listingValue sp (host.entries sp names))) ↔ Listable host sp names := by
  constructor
  · rintro ⟨reply, hreply, hread⟩
    obtain ⟨hall, rfl⟩ := (listPath_eq_ok hpath hdir).mp hreply
    exact listable_of_read hall hread
  · intro h
    have hread := h.read
    have hfits := h.record
    rw [← h.listed_eq] at hfits
    refine ⟨_, (listPath_eq_ok hpath hdir).mpr
      ⟨fun r hr => (hfits r hr).trans (by decide), rfl⟩, ?_⟩
    rw [copied_records hfits, h.listed_eq, cString_eq_self (nul_not_mem_of_valid hread.valid)]
    exact hread.decode

def oneFileHost (name : CString 256) : FileHost where
  readdir := fun _ => .ok [name]
  lstat := fun _ => some ⟨0o100644, 5, 0, by decide⟩
  fopen := fun _ => .error ⟨[], by simp, by decide⟩
  refuses := fun _ => none

theorem one_file_is_listed :
    ∃ reply, (oneFileHost ⟨lit "a", by decide, by decide⟩).listPath (lit "/d") = .ok reply ∧
      decode reply = some (listingValue (lit "/d") [(lit "a", ⟨0o100644, 5, 0, by decide⟩)]) := by
  refine (listing_exact (oneFileHost ⟨lit "a", by decide, by decide⟩) (lit "/d") (lit "/d")
    (by decide) _ rfl).mpr ⟨⟨['/', 'd'], by decide, by decide⟩, ?_, ?_, ?_⟩
  · intro e he _ _
    rw [mem_singleton.mp he]
    exact .inl (by decide)
  · intro e he
    rw [mem_singleton.mp he]
    exact ⟨['a'], by decide, by decide⟩
  · intro r hr
    rw [mem_singleton.mp hr]
    decide

def longName : CString 256 where
  bytes := List.replicate 255 121
  fits := by
    rw [length_replicate]
    decide
  noNul := fun h => absurd (eq_of_mem_replicate h) (by decide)

def deepDir : Bytes := 47 :: List.replicate 700 120

/-- A quote in a name, which the path does not escape, and a record that is longer than
its buffer. -/
theorem listing_breaks :
    (∃ reply, (oneFileHost ⟨lit "a\"b", by decide, by decide⟩).listPath (lit "/d") = .ok reply ∧
      decode reply = none) ∧
    safePath deepDir = some deepDir ∧
      (oneFileHost longName).listPath deepDir = .error .outOfBounds := by
  have hpath : safePath deepDir = some deepDir := by decide +kernel
  refine ⟨⟨_, rfl, if_neg (by decide +kernel)⟩, hpath, ?_⟩
  have hlisted : (oneFileHost longName).listed deepDir [longName] =
      [(longName.bytes, ⟨0o100644, 5, 0, by decide⟩)] := rfl
  generalize hitem : fileItem deepDir (longName.bytes, ⟨0o100644, 5, 0, by decide⟩) = item
  have hlong : 1024 < item.length := by
    rw [← hitem]
    decide +kernel
  have hcopy : copyItem item = .error .outOfBounds := by
    refine readAt_of_lt ?_
    simp only [snprintf, length_append, length_take, length_singleton]
    omega
  have hitems : copyItems [item] = .error .outOfBounds := by
    rw [copyItems, hcopy]
    rfl
  have hdir : (oneFileHost longName).readdir deepDir = .ok [longName] := rfl
  rw [FileHost.listPath, hpath]
  simp only [FileHost.fileList, hdir, hlisted, map_cons, map_nil, hitem, hitems]
  rfl

end CtForge.Agent
