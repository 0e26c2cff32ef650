import Mathlib.Data.List.Perm.Subperm
import VTranser.Lib.StableSort
import VTranser.Worker.EmailCache

/-!
# When a user id is found again

The newest entries are kept, so nothing that goes is newer than what stays. The entry
that was just made need not be among them: those with a time that is yet to come are
newer, and of those as new the ones before it in the map stay.
-/

namespace VTranser.Worker

open StableSort

variable {conv : Convert}

/-! ## Keys -/

theorem objectKeys_perm {ν : Type*} (m : ObjMap JsStr ν) : (objectKeys m).Perm m.keys := by
  have hindex : ((m.keys.filter fun k => (indexOf? k).isSome).mergeSort fun k k' =>
      decide ((indexOf? k).getD 0 ≤ (indexOf? k').getD 0)).Perm
        (m.keys.filter fun k => (indexOf? k).isSome) := List.mergeSort_perm _ _
  have hrest : (m.keys.filter fun k => (indexOf? k).isNone) =
      m.keys.filter fun k => !(indexOf? k).isSome := by
    simp
  rw [objectKeys, hrest]
  exact (hindex.append_right _).trans (List.filter_append_perm _ _)

theorem nodup_objectKeys {ν : Type*} (m : ObjMap JsStr ν) : (objectKeys m).Nodup :=
  (objectKeys_perm m).nodup_iff.mpr m.nodup

theorem mem_objectKeys {ν : Type*} {m : ObjMap JsStr ν} {k : JsStr} :
    k ∈ objectKeys m ↔ ∃ v, m.get? k = some v :=
  (objectKeys_perm m).mem_iff.trans ObjMap.mem_keys_iff

theorem get?_setKey {ν : Type*} (out : ObjMap JsStr ν) {k : JsStr} (hk : k ≠ jsText "__proto__")
    (k' : JsStr) (v : ν) : (setKey out k v).get? k' = if k' = k then some v else out.get? k' := by
  rw [setKey, if_neg hk, ObjMap.get?_set]

/-! ## Maps that are stored -/

/-- An entry that is left as it is when the map is read: its key is an email, and its
id a number. -/
structure CleanEntry (conv : Convert) (k : JsStr) (row : EmailRow) : Prop where
  normal : normalizeEmail conv k = k
  nonempty : k ≠ []
  own : k ≠ jsText "__proto__"
  numeric : Auth.parseNumericId row.userId = row.userId
  userId : row.userId ≠ []

def Clean (conv : Convert) (map : ObjMap JsStr EmailRow) : Prop :=
  ∀ k row, map.get? k = some row → CleanEntry conv k row

theorem parseNumericId_parseNumericId (v : JsStr) :
    Auth.parseNumericId (Auth.parseNumericId v) = Auth.parseNumericId v := by
  simp only [Auth.parseNumericId]
  split
  · next h => rw [jsTrim_jsTrim, if_pos h]
  · rfl

theorem parseNumericUserId_idem (v : JsVal) :
    Auth.parseNumericId (parseNumericUserId conv v) = parseNumericUserId conv v := by
  unfold parseNumericUserId
  split
  · rfl
  · exact parseNumericId_parseNumericId _
  · exact parseNumericId_parseNumericId _

section

variable (hidem : ∀ s, normalizeEmail conv (normalizeEmail conv s) = normalizeEmail conv s)
include hidem

/-- A round of the loop keeps the map clean. -/
theorem Clean.sanitizeEntry {out : ObjMap JsStr EmailRow} (h : Clean conv out) (now : Rat)
    (k : JsStr) (v : JsVal) : Clean conv (sanitizeEntry conv now out k v) := by
  unfold Worker.sanitizeEntry
  dsimp only
  split
  · exact h
  · next hne =>
      rw [Bool.or_eq_true, not_or, List.isEmpty_iff, List.isEmpty_iff] at hne
      by_cases hproto : normalizeEmail conv k = jsText "__proto__"
      · rw [setKey, if_pos hproto]
        exact h
      · intro k' row hget
        rw [get?_setKey out hproto] at hget
        split at hget
        · next hk' =>
            subst hk'
            injection hget with hget
            subst hget
            exact ⟨hidem k, hne.1, hproto, parseNumericUserId_idem _, hne.2⟩
        · exact h k' row hget

theorem Clean.sanitize (clock : Nat → Rat) (raw : ObjMap JsStr JsVal) :
    Clean conv (sanitizeEmailUserIdMap conv clock raw) := by
  have hfold : ∀ (ks : List (JsStr × Nat)) (out : ObjMap JsStr EmailRow), Clean conv out →
      Clean conv (ks.foldl (fun out e =>
        Worker.sanitizeEntry conv (clock e.2) out e.1 ((raw.get? e.1).getD .null)) out) := by
    intro ks
    induction ks with
    | nil => exact fun _ h => h
    | cons e ks ih => exact fun out h => ih _ (h.sanitizeEntry hidem _ _ _)
  exact hfold _ _ fun k row h => by cases h

theorem Clean.withEmail (clock : Nat → Rat) (now : Rat) {em uid : JsStr}
    (raw : ObjMap JsStr JsVal) (h : CleanEntry conv em ⟨uid, now⟩) :
    Clean conv (withEmail conv clock now em uid raw) := by
  intro k row hget
  rw [Worker.withEmail, get?_setKey _ h.own] at hget
  split at hget
  · next hk =>
      subst hk
      injection hget with hget
      exact hget ▸ h
  · exact Clean.sanitize hidem clock raw k row hget

end

theorem field_toVal (row : EmailRow) :
    row.toVal.field "user_id" = .str row.userId ∧
      row.toVal.field "updated_at" = .num row.updatedAt := by
  have hne : (jsText "updated_at" == jsText "user_id") = false := by decide
  constructor
  · simp [EmailRow.toVal, JsVal.field]
  · simp [EmailRow.toVal, JsVal.field, List.lookup_cons, hne]

theorem CleanEntry.sanitizeEntry_eq {k : JsStr} {row : EmailRow} (h : CleanEntry conv k row)
    (now : Rat) (out : ObjMap JsStr EmailRow) :
    sanitizeEntry conv now out k row.toVal =
      setKey out k ⟨row.userId, entryTime conv now row.toVal⟩ := by
  have huid : parseNumericUserId conv (((row.toVal.field "user_id").orElse
      (row.toVal.field "id")).orElse row.toVal) = row.userId := by
    rw [(field_toVal row).1]
    exact h.numeric
  unfold sanitizeEntry
  dsimp only
  rw [h.normal, huid, if_neg]
  rw [Bool.or_eq_true, List.isEmpty_iff, List.isEmpty_iff]
  exact not_or.mpr ⟨h.nonempty, h.userId⟩

/-- The entries of a clean map, read one after the other: behind its place a key is not
set again. -/
theorem get?_foldl_sanitizeEntry {map : ObjMap JsStr EmailRow} (hmap : Clean conv map)
    (clock : Nat → Rat) (k : JsStr) (ks : List (JsStr × Nat)) :
    ∀ out : ObjMap JsStr EmailRow, (ks.map Prod.fst).Nodup → (∀ e ∈ ks, e.1 ∈ map.keys) →
      let read := ks.foldl (fun out (k, i) => sanitizeEntry conv (clock i) out k
        (((map.mapVal EmailRow.toVal).get? k).getD .null)) out
      (∀ row, map.get? k = some row → k ∈ ks.map Prod.fst →
        ∃ t, read.get? k = some ⟨row.userId, entryTime conv t row.toVal⟩) ∧
        (k ∉ ks.map Prod.fst → read.get? k = out.get? k) := by
  induction ks with
  | nil => exact fun out _ _ => ⟨nofun, fun _ => rfl⟩
  | cons e ks ih =>
      intro out hnd hkeys
      obtain ⟨k', i⟩ := e
      rw [List.map_cons, List.nodup_cons] at hnd
      obtain ⟨row', hget'⟩ := ObjMap.mem_keys_iff.mp (hkeys (k', i) List.mem_cons_self)
      have hclean := hmap k' row' hget'
      have hrest := ih (sanitizeEntry conv (clock i) out k' row'.toVal) hnd.2
        fun e he => hkeys e (List.mem_cons_of_mem _ he)
      have hset := get?_setKey out hclean.own k ⟨row'.userId, entryTime conv (clock i) row'.toVal⟩
      rw [hclean.sanitizeEntry_eq] at hrest
      simp only [List.foldl_cons, ObjMap.get?_mapVal, hget', Option.map_some, Option.getD_some,
        hclean.sanitizeEntry_eq, List.map_cons, List.mem_cons] at hrest ⊢
      by_cases hk : k = k'
      · subst hk
        refine ⟨fun row hget _ => ⟨clock i, ?_⟩, fun h => absurd (Or.inl rfl) h⟩
        obtain rfl : row' = row := Option.some.inj (hget'.symm.trans hget)
        rw [hrest.2 hnd.1, hset, if_pos rfl]
      · rw [if_neg hk] at hset
        refine ⟨fun row hget h => hrest.1 row hget (h.resolve_left hk), fun h => ?_⟩
        rw [hrest.2 (fun h' => h (Or.inr h')), hset]

/-- A clean map is read as it was stored, but for times that are zero. -/
theorem get?_sanitize_mapVal {map : ObjMap JsStr EmailRow} (hmap : Clean conv map)
    (clock : Nat → Rat) (k : JsStr) :
    (∀ row, map.get? k = some row →
      ∃ t, (sanitizeEmailUserIdMap conv clock (map.mapVal EmailRow.toVal)).get? k =
        some ⟨row.userId, entryTime conv t row.toVal⟩) ∧
      (k ∉ map.keys →
        (sanitizeEmailUserIdMap conv clock (map.mapVal EmailRow.toVal)).get? k = none) := by
  have hperm := objectKeys_perm (map.mapVal EmailRow.toVal)
  rw [ObjMap.keys_mapVal] at hperm
  have hfst : (objectKeys (map.mapVal EmailRow.toVal)).zipIdx.map Prod.fst =
      objectKeys (map.mapVal EmailRow.toVal) := List.zipIdx_map_fst _ _
  have hread := get?_foldl_sanitizeEntry hmap clock k
    (objectKeys (map.mapVal EmailRow.toVal)).zipIdx ObjMap.empty
    (by rw [hfst]; exact nodup_objectKeys _)
    (fun e he => by
      rw [← hperm.mem_iff, ← hfst]
      exact List.mem_map_of_mem he)
  rw [hfst, hperm.mem_iff] at hread
  exact ⟨fun row hget => hread.1 row hget (ObjMap.mem_keys_of_get? hget), hread.2⟩

/-! ## What is kept -/

/-- A loop that puts in the entries of a map at some keys. -/
theorem get?_foldl_setKey {map : ObjMap JsStr EmailRow} (hmap : Clean conv map) (k : JsStr)
    {put : ObjMap JsStr EmailRow → JsStr → ObjMap JsStr EmailRow}
    (hnone : ∀ out k', map.get? k' = none → put out k' = out)
    (hsome : ∀ out k' row, map.get? k' = some row → put out k' = setKey out k' row)
    (ks : List JsStr) (out : ObjMap JsStr EmailRow) :
    (ks.foldl put out).get? k =
      if k ∈ ks ∧ (map.get? k).isSome then map.get? k else out.get? k := by
  induction ks generalizing out with
  | nil => simp
  | cons k' ks ih =>
      rw [List.foldl_cons, ih]
      by_cases hin : k ∈ ks ∧ (map.get? k).isSome
      · rw [if_pos hin, if_pos ⟨List.mem_cons_of_mem _ hin.1, hin.2⟩]
      · rw [if_neg hin]
        cases hget : map.get? k' with
        | none =>
            rw [hnone out k' hget, if_neg]
            rintro ⟨hmem, hsome⟩
            rcases List.mem_cons.mp hmem with rfl | hmem
            · simp [hget] at hsome
            · exact hin ⟨hmem, hsome⟩
        | some row =>
            rw [hsome out k' row hget, get?_setKey _ (hmap k' row hget).own]
            by_cases hk : k = k'
            · subst hk
              simp [hget]
            · rw [if_neg hk, if_neg]
              rintro ⟨hmem, hsome⟩
              exact hin ⟨(List.mem_cons.mp hmem).resolve_left hk, hsome⟩

theorem get?_prune {map : ObjMap JsStr EmailRow} (hmap : Clean conv map) (k : JsStr) :
    (prune map).get? k = if k ∈ keptKeys map then map.get? k else none := by
  rw [prune, get?_foldl_setKey hmap k (fun out k' hget => by simp only [hget])
    fun out k' row hget => by simp only [hget]]
  by_cases hin : k ∈ keptKeys map
  · cases hget : map.get? k with
    | none => simp
    | some row => simp [hin]
  · simp [hin]

theorem mem_keys_prune {map : ObjMap JsStr EmailRow} (hmap : Clean conv map) {k : JsStr} :
    k ∈ (prune map).keys ↔ k ∈ keptKeys map := by
  rw [ObjMap.mem_keys_iff, get?_prune hmap]
  constructor
  · rintro ⟨row, hget⟩
    by_contra hnot
    simp [hnot] at hget
  · intro hin
    rw [if_pos hin]
    exact mem_objectKeys.mp (List.mem_mergeSort.mp (List.mem_of_mem_take hin))

theorem length_keys_prune (map : ObjMap JsStr EmailRow) (hmap : Clean conv map) :
    (prune map).keys.length ≤ maxEmailKeys := by
  have hsub : (prune map).keys ⊆ keptKeys map := fun k hk => (mem_keys_prune hmap).mp hk
  have hle := (List.subperm_of_subset (prune map).nodup hsub).length_le
  exact hle.trans (List.length_take_le _ _)

/-- The keys, newest first, are a total preorder. -/
theorem newer_trans (map : ObjMap JsStr EmailRow) (a b c : JsStr) :
    decide (timeOf map b ≤ timeOf map a) = true → decide (timeOf map c ≤ timeOf map b) = true →
      decide (timeOf map c ≤ timeOf map a) = true := by
  simp only [decide_eq_true_eq]
  exact fun hab hbc => hbc.trans hab

theorem newer_total (map : ObjMap JsStr EmailRow) (a b : JsStr) :
    (decide (timeOf map b ≤ timeOf map a) || decide (timeOf map a ≤ timeOf map b)) = true := by
  simpa using le_total (timeOf map b) (timeOf map a)

/-- Nothing that goes is newer than what stays. -/
theorem timeOf_le_of_kept {map : ObjMap JsStr EmailRow} {k k' : JsStr} (hk : k ∈ keptKeys map)
    (hkeys : k' ∈ objectKeys map) (hk' : k' ∉ keptKeys map) : timeOf map k' ≤ timeOf map k := by
  have hmem : k' ∈ (objectKeys map).mergeSort fun a b => decide (timeOf map b ≤ timeOf map a) :=
    List.mem_mergeSort.mpr hkeys
  rw [← List.take_append_drop maxEmailKeys (List.mergeSort _ _), List.mem_append] at hmem
  have hle := le_of_mem_take_drop (newer_trans map) (newer_total map) hk (hmem.resolve_left hk')
  simpa using hle

/-- How many entries go before the one of `em`: those that are newer, and those before
it that are as new. -/
def aheadOf (map : ObjMap JsStr EmailRow) (em : JsStr) : Nat :=
  (objectKeys map).countP fun k =>
    decide (timeOf map em < timeOf map k) || decide (timeOf map em = timeOf map k) &&
      decide (k ∈ (objectKeys map).takeWhile fun x => x ≠ em)

theorem mem_keptKeys_iff {map : ObjMap JsStr EmailRow} {em : JsStr} (hem : em ∈ objectKeys map) :
    em ∈ keptKeys map ↔ aheadOf map em < maxEmailKeys := by
  rw [keptKeys, mem_take_mergeSort_iff (newer_trans map) (newer_total map) (nodup_objectKeys map)
    hem, aheadOf]
  have hahead : (ahead (fun a b => decide (timeOf map b ≤ timeOf map a)) (objectKeys map) em) =
      fun k => decide (timeOf map em < timeOf map k) || decide (timeOf map em = timeOf map k) &&
        decide (k ∈ (objectKeys map).takeWhile fun x => x ≠ em) := by
    funext k
    rw [Bool.eq_iff_iff]
    simp only [ahead, Bool.and_eq_true, Bool.or_eq_true, decide_eq_true_eq, Bool.not_eq_true',
      decide_eq_false_iff_not, not_le]
    constructor
    · rintro ⟨hle, hlt | hmem⟩
      · exact Or.inl hlt
      · exact hle.lt_or_eq.imp_right fun heq => ⟨heq, hmem⟩
    · rintro (hlt | ⟨heq, hmem⟩)
      · exact ⟨hlt.le, Or.inl hlt⟩
      · exact ⟨heq.le, Or.inr hmem⟩
  rw [hahead]

/-! ## Caching -/

/-- The rows that are stored. -/
def storedRows (map : ObjMap JsStr EmailRow) : ObjMap JsStr EmailRow :=
  if maxEmailKeys < (objectKeys map).length then prune map else map

section

variable {map : ObjMap JsStr EmailRow} (hmap : Clean conv map)
include hmap

theorem length_storedRows : (storedRows map).keys.length ≤ maxEmailKeys := by
  unfold storedRows
  split
  · exact length_keys_prune map hmap
  · next h =>
      rw [(objectKeys_perm map).length_eq] at h
      omega

theorem get?_storedRows {k : JsStr} (hk : k ∈ (storedRows map).keys) :
    (storedRows map).get? k = map.get? k := by
  unfold storedRows at hk ⊢
  split
  · next h =>
      rw [if_pos h, mem_keys_prune hmap] at hk
      rw [get?_prune hmap, if_pos hk]
  · rfl

theorem clean_storedRows : Clean conv (storedRows map) := by
  intro k row hget
  have hk := ObjMap.mem_keys_of_get? hget
  rw [get?_storedRows hmap hk] at hget
  exact hmap k row hget

theorem timeOf_le_of_stored {k k' : JsStr} (hk : k ∈ (storedRows map).keys)
    (hkeys : k' ∈ map.keys) (hk' : k' ∉ (storedRows map).keys) :
    timeOf map k' ≤ timeOf map k := by
  unfold storedRows at hk hk'
  split at hk
  · next h =>
      rw [mem_keys_prune hmap] at hk
      rw [if_pos h, mem_keys_prune hmap] at hk'
      exact timeOf_le_of_kept hk ((objectKeys_perm map).mem_iff.mpr hkeys) hk'
  · next h =>
      rw [if_neg h] at hk'
      exact absurd hkeys hk'

theorem mem_storedRows_iff {em : JsStr} (hem : em ∈ map.keys) :
    em ∈ (storedRows map).keys ↔ aheadOf map em < maxEmailKeys := by
  have hem' := (objectKeys_perm map).mem_iff.mpr hem
  unfold storedRows
  split
  · rw [mem_keys_prune hmap, mem_keptKeys_iff hem']
  · next h =>
      refine iff_of_true hem (lt_of_lt_of_le ?_ (Nat.le_of_not_lt h))
      apply lt_of_le_of_ne List.countP_le_length
      rw [Ne, List.countP_eq_length]
      intro hall
      have hself := hall em hem'
      simp only [lt_self_iff_false, decide_false, Bool.false_or, Bool.and_eq_true,
        decide_eq_true_eq] at hself
      simpa using List.mem_takeWhile_imp hself.2

end

/-- The id of an email is found again if and only if its entry is stored. -/
theorem find_storedRows_iff {map : ObjMap JsStr EmailRow} (hmap : Clean conv map)
    (clock : Nat → Rat) {email : JsStr} {row : EmailRow}
    (hget : map.get? (normalizeEmail conv email) = some row) :
    findCachedUserIdByEmail conv clock email ((storedRows map).mapVal EmailRow.toVal) =
        row.userId ↔ aheadOf map (normalizeEmail conv email) < maxEmailKeys := by
  have hrow := hmap _ row hget
  have hread := get?_sanitize_mapVal (clean_storedRows hmap) clock (normalizeEmail conv email)
  rw [← mem_storedRows_iff hmap (ObjMap.mem_keys_of_get? hget), findCachedUserIdByEmail,
    if_neg (by simpa using hrow.nonempty)]
  by_cases hmem : normalizeEmail conv email ∈ (storedRows map).keys
  · obtain ⟨t, ht⟩ := hread.1 row (by rw [get?_storedRows hmap hmem, hget])
    rw [ht]
    exact iff_of_true hrow.numeric hmem
  · rw [hread.2 hmem]
    exact iff_of_false hrow.userId.symm hmem

theorem cleanEntry_email
    (hidem : ∀ s, normalizeEmail conv (normalizeEmail conv s) = normalizeEmail conv s)
    {email : JsStr} (hemail : 0x40 ∈ normalizeEmail conv email) {userId : JsVal}
    (huid : parseNumericUserId conv userId ≠ []) (now : Rat) :
    CleanEntry conv (normalizeEmail conv email) ⟨parseNumericUserId conv userId, now⟩ where
  normal := hidem email
  nonempty := List.ne_nil_of_mem hemail
  own := by
    intro heq
    rw [heq] at hemail
    revert hemail
    decide
  numeric := parseNumericUserId_idem userId
  userId := huid

/-- The map is bounded and what stays is as it was and as new as what goes; and the new
entry is read again if and only if fewer than `maxEmailKeys` others go before it. -/
theorem cacheEmailUserId_iff
    (hidem : ∀ s, normalizeEmail conv (normalizeEmail conv s) = normalizeEmail conv s)
    (clock clock' : Nat → Rat) (now : Rat) (email : JsStr) (userId : JsVal)
    (raw : ObjMap JsStr JsVal) (hemail : 0x40 ∈ normalizeEmail conv email)
    (huid : parseNumericUserId conv userId ≠ []) :
    (let map := withEmail conv clock now (normalizeEmail conv email)
        (parseNumericUserId conv userId) raw
      let stored := cacheEmailUserId conv clock now email userId raw
      stored.keys.length ≤ maxEmailKeys ∧
        findCachedUserIdByEmail conv clock' email stored = parseNumericUserId conv userId ∧
        ∀ k ∈ stored.keys, stored.get? k = (map.get? k).map EmailRow.toVal ∧
          ∀ k' ∈ map.keys, k' ∉ stored.keys → timeOf map k' ≤ timeOf map k) ↔
      aheadOf (withEmail conv clock now (normalizeEmail conv email)
        (parseNumericUserId conv userId) raw) (normalizeEmail conv email) < maxEmailKeys := by
  have hentry := cleanEntry_email hidem hemail huid now
  have hmap := Clean.withEmail hidem clock now raw hentry
  have hget : (withEmail conv clock now (normalizeEmail conv email)
      (parseNumericUserId conv userId) raw).get? (normalizeEmail conv email) =
        some ⟨parseNumericUserId conv userId, now⟩ := by
    rw [withEmail, get?_setKey _ hentry.own, if_pos rfl]
  have hstored : cacheEmailUserId conv clock now email userId raw =
      (storedRows (withEmail conv clock now (normalizeEmail conv email)
        (parseNumericUserId conv userId) raw)).mapVal EmailRow.toVal := by
    rw [cacheEmailUserId]
    dsimp only
    rw [if_neg]
    · rfl
    · rw [Bool.or_eq_true, List.isEmpty_iff, List.isEmpty_iff]
      exact not_or.mpr ⟨hentry.nonempty, huid⟩
  rw [hstored]
  generalize withEmail conv clock now (normalizeEmail conv email)
    (parseNumericUserId conv userId) raw = map at hmap hget
  have hfind := find_storedRows_iff hmap clock' hget
  simp only [ObjMap.keys_mapVal]
  constructor
  · exact fun h => hfind.mp h.2.1
  · intro h
    refine ⟨length_storedRows hmap, hfind.mpr h, fun k hk => ⟨?_, fun k' => ?_⟩⟩
    · rw [ObjMap.get?_mapVal, get?_storedRows hmap hk]
    · exact timeOf_le_of_stored hmap hk

/-- Conversions for texts in lower case that hold no other values. -/
def plainConvert : Convert where
  string _ := []
  number _ := none
  toLowerCase s := s

theorem normalizeEmail_plainConvert (s : JsStr) :
    normalizeEmail plainConvert (normalizeEmail plainConvert s) = normalizeEmail plainConvert s :=
  jsTrim_jsTrim s

/-- `"@"`, `"a@"`, `"aa@"` and so on. -/
def emailOf (n : Nat) : JsStr := List.replicate n 0x61 ++ [0x40]

theorem emailOf_injective : Function.Injective emailOf := fun m n h => by
  simpa [emailOf] using congrArg List.length h

theorem normalizeEmail_emailOf (n : Nat) : normalizeEmail plainConvert (emailOf n) = emailOf n := by
  refine jsTrim_eq_self fun u hu => ?_
  rcases List.mem_append.mp hu with hu | hu
  · rw [List.eq_of_mem_replicate hu]
    decide
  · rw [List.mem_singleton.mp hu]
    decide

theorem mem_emailOf (n : Nat) : (0x40 : UInt16) ∈ emailOf n :=
  List.mem_append_right _ (List.mem_singleton.mpr rfl)

theorem emailOf_own (n : Nat) : emailOf n ≠ jsText "__proto__" := by
  intro heq
  have hat := mem_emailOf n
  rw [heq] at hat
  revert hat
  decide

theorem cleanEntry_emailOf (n : Nat) : CleanEntry plainConvert (emailOf n) ⟨jsText "1", 2⟩ :=
  ⟨normalizeEmail_emailOf n, List.ne_nil_of_mem (mem_emailOf n), emailOf_own n, by decide,
    by decide⟩

theorem emailOf_ne (n : Nat) : emailOf n ≠ jsText "b@" := by
  intro heq
  cases n with
  | zero => exact absurd heq (by decide)
  | succ n =>
      rw [emailOf, List.replicate_succ] at heq
      exact absurd (List.cons.inj heq).1 (by decide)

/-- Entries that are all read: what holds of each of them holds of all that was read, and
none is lost. -/
theorem sanitize_all {P : EmailRow → Prop} {raw : ObjMap JsStr JsVal} (clock : Nat → Rat)
    (hraw : ∀ k ∈ raw.keys, k ≠ jsText "__proto__" ∧ ∀ i out, ∃ row, P row ∧
      sanitizeEntry conv (clock i) out k ((raw.get? k).getD .null) = setKey out k row) :
    (∀ k row, (sanitizeEmailUserIdMap conv clock raw).get? k = some row → P row) ∧
      raw.keys ⊆ (sanitizeEmailUserIdMap conv clock raw).keys := by
  have hfold : ∀ (ks : List (JsStr × Nat)) (out : ObjMap JsStr EmailRow),
      (∀ e ∈ ks, e.1 ∈ raw.keys) → (∀ k row, out.get? k = some row → P row) →
        let read := ks.foldl (fun out (k, i) =>
          sanitizeEntry conv (clock i) out k ((raw.get? k).getD .null)) out
        (∀ k row, read.get? k = some row → P row) ∧
          ∀ k, k ∈ out.keys ∨ k ∈ ks.map Prod.fst → k ∈ read.keys := by
    intro ks
    induction ks with
    | nil => exact fun out _ hout => ⟨hout, fun k hk => hk.resolve_right List.not_mem_nil⟩
    | cons e ks ih =>
        obtain ⟨k₁, i⟩ := e
        intro out hks hout
        obtain ⟨hown, hset⟩ := hraw k₁ (hks (k₁, i) List.mem_cons_self)
        obtain ⟨row₁, hrow₁, heq⟩ := hset i out
        have hget := fun k => get?_setKey out hown k row₁
        have hrest := ih (setKey out k₁ row₁) (fun e he => hks e (List.mem_cons_of_mem _ he)) (by
          intro k row hk
          rw [hget] at hk
          split at hk
          · exact Option.some.inj hk ▸ hrow₁
          · exact hout k row hk)
        simp only [List.foldl_cons, heq]
        refine ⟨hrest.1, fun k hk => hrest.2 k ?_⟩
        rw [ObjMap.mem_keys_iff, hget]
        by_cases hkk : k = k₁
        · exact .inl ⟨row₁, if_pos hkk⟩
        · rw [if_neg hkk, ← ObjMap.mem_keys_iff]
          rw [List.map_cons, List.mem_cons] at hk
          exact hk.imp_right fun hk => hk.resolve_left hkk
  have hfst : (objectKeys raw).zipIdx.map Prod.fst = objectKeys raw := List.zipIdx_map_fst _ _
  have hperm := objectKeys_perm raw
  obtain ⟨hall, hkeys⟩ := hfold (objectKeys raw).zipIdx ObjMap.empty
    (fun e he => by
      rw [← hperm.mem_iff, ← hfst]
      exact List.mem_map_of_mem he)
    (fun k row h => by cases h)
  refine ⟨hall, fun k hk => hkeys k (.inr ?_)⟩
  rw [hfst, hperm.mem_iff]
  exact hk

/-- One entry more than may stay, all from yesterday or with the id alone. -/
def fromYesterday : ObjMap JsStr JsVal where
  entries := (List.range (maxEmailKeys + 1)).map fun n =>
    (emailOf n, if n % 2 = 0 then .str (jsText "1") else EmailRow.toVal ⟨jsText "1", 2⟩)
  nodup := by
    rw [List.map_map]
    exact List.nodup_range.map emailOf_injective

theorem sanitizeEntry_fromYesterday (n : Nat) (out : ObjMap JsStr EmailRow) {v : JsVal}
    (hv : v = .str (jsText "1") ∨ v = EmailRow.toVal ⟨jsText "1", 2⟩) :
    ∃ row, row.updatedAt ≤ 3 ∧
      sanitizeEntry plainConvert 3 out (emailOf n) v = setKey out (emailOf n) row := by
  have hentry := cleanEntry_emailOf n
  rcases hv with rfl | rfl
  · refine ⟨⟨jsText "1", 3⟩, by decide, ?_⟩
    have huid : parseNumericUserId plainConvert (.str (jsText "1")) = jsText "1" := by decide
    have htime : entryTime plainConvert 3 (.str (jsText "1")) = 3 := rfl
    have hempty : ¬ ((emailOf n).isEmpty || (jsText "1").isEmpty) = true := by
      rw [Bool.or_eq_true, List.isEmpty_iff, List.isEmpty_iff]
      exact not_or.mpr ⟨hentry.nonempty, by decide⟩
    simp only [sanitizeEntry, normalizeEmail_emailOf, JsVal.field, JsVal.orElse, huid, htime,
      if_neg hempty]
  · exact ⟨_, by decide, hentry.sanitizeEntry_eq 3 out⟩

/-- Two of them have to go, and the new entry stays. -/
theorem cacheEmailUserId_iff_fromYesterday :
    let map := withEmail plainConvert (fun _ => 3) 5 (jsText "b@") (jsText "7") fromYesterday
    let stored := cacheEmailUserId plainConvert (fun _ => 3) 5 (jsText "b@") (.str (jsText "7"))
      fromYesterday
    stored.keys.length ≤ maxEmailKeys ∧
      findCachedUserIdByEmail plainConvert (fun _ => 6) (jsText "b@") stored = jsText "7" ∧
      (∃ k ∈ map.keys, k ∉ stored.keys) ∧
      ∀ k ∈ stored.keys, ∀ k' ∈ map.keys, k' ∉ stored.keys → timeOf map k' ≤ timeOf map k := by
  intro map stored
  have hread : ∀ k ∈ fromYesterday.keys, k ≠ jsText "__proto__" ∧ ∀ (i : Nat) out,
      ∃ row : EmailRow, row.updatedAt ≤ 3 ∧
        sanitizeEntry plainConvert 3 out k ((fromYesterday.get? k).getD .null) =
          setKey out k row := by
    intro k hk
    obtain ⟨v, hv⟩ := ObjMap.mem_keys_iff.mp hk
    obtain ⟨n, -, heq⟩ := List.mem_map.mp (ObjMap.mem_entries_of_get? hv)
    obtain ⟨rfl, rfl⟩ := Prod.mk.inj heq
    rw [hv]
    refine ⟨emailOf_own n, fun _ out => sanitizeEntry_fromYesterday n out ?_⟩
    rw [Option.getD_some]
    split
    · exact .inl rfl
    · exact .inr rfl
  obtain ⟨htimes, hkeys⟩ := sanitize_all (fun _ => 3) hread
  have hget := fun k => get?_setKey (sanitizeEmailUserIdMap plainConvert (fun _ => 3)
    fromYesterday) (by decide : jsText "b@" ≠ jsText "__proto__") k ⟨jsText "7", 5⟩
  have hnew : timeOf map (jsText "b@") = 5 := by
    rw [timeOf, show map.get? (jsText "b@") = _ from hget _, if_pos rfl]
  have hold : ∀ k, k ≠ jsText "b@" → timeOf map k ≤ 3 := by
    intro k hk
    rw [timeOf, show map.get? k = _ from hget k, if_neg hk]
    split
    · next row hrow => exact htimes k row hrow
    · decide
  -- Nothing is ahead of the new entry.
  have hahead : aheadOf map (jsText "b@") = 0 := by
    refine List.countP_eq_zero.mpr fun k _ => ?_
    rw [hnew]
    by_cases hk : k = jsText "b@"
    · rw [hk, hnew]
      have hfirst : jsText "b@" ∉ (objectKeys map).takeWhile fun x => x ≠ jsText "b@" := by
        intro h
        simpa using List.mem_takeWhile_imp h
      rw [decide_eq_false hfirst]
      simp
    · have hlt : timeOf map k < 5 := lt_of_le_of_lt (hold k hk) (by decide)
      simp [not_lt.mpr hlt.le, hlt.ne']
  have hemail : normalizeEmail plainConvert (jsText "b@") = jsText "b@" := by decide
  have huid : parseNumericUserId plainConvert (.str (jsText "7")) = jsText "7" := by decide
  have hiff := cacheEmailUserId_iff normalizeEmail_plainConvert (fun _ => 3) (fun _ => 6) 5
    (jsText "b@") (.str (jsText "7")) fromYesterday (by decide) (by decide)
  rw [hemail, huid] at hiff
  obtain ⟨hsize, hfound, hkept⟩ := hiff.mpr (hahead.trans_lt (by decide))
  refine ⟨hsize, hfound, ?_, fun k hk => (hkept k hk).2⟩
  by_contra hall
  simp only [not_exists, not_and, not_not] at hall
  have hsub : fromYesterday.keys ⊆ stored.keys := by
    intro k hk
    obtain ⟨row, hrow⟩ := ObjMap.mem_keys_iff.mp (hkeys hk)
    refine hall k (ObjMap.mem_keys_iff.mpr ?_)
    rw [show map.get? k = _ from hget k]
    split
    · exact ⟨_, rfl⟩
    · exact ⟨row, hrow⟩
  have hlen : fromYesterday.keys.length = maxEmailKeys + 1 := by
    simp [ObjMap.keys, fromYesterday]
  have hle : fromYesterday.keys.length ≤ stored.keys.length :=
    (List.subperm_of_subset fromYesterday.nodup hsub).length_le
  rw [hlen] at hle
  exact absurd (hle.trans hsize) (Nat.not_succ_le_self _)

/-- As many entries as may stay, all from a time that is yet to come. -/
def fromTomorrow : ObjMap JsStr EmailRow where
  entries := (List.range maxEmailKeys).map fun n => (emailOf n, ⟨jsText "1", 2⟩)
  nodup := by
    rw [List.map_map]
    exact List.nodup_range.map emailOf_injective

theorem get?_fromTomorrow {k : JsStr} {row : EmailRow} (h : fromTomorrow.get? k = some row) :
    row = ⟨jsText "1", 2⟩ ∧ ∃ n, k = emailOf n := by
  obtain ⟨n, -, heq⟩ := List.mem_map.mp (ObjMap.mem_entries_of_get? h)
  obtain ⟨rfl, rfl⟩ := Prod.mk.inj heq
  exact ⟨rfl, n, rfl⟩

theorem clean_fromTomorrow : Clean plainConvert fromTomorrow := by
  intro k row hget
  obtain ⟨rfl, n, rfl⟩ := get?_fromTomorrow hget
  exact cleanEntry_emailOf n

/-- Read back and with an email that is none of theirs, they are all newer than it. -/
theorem le_aheadOf_fromTomorrow {em : JsStr} {row : EmailRow} (hem : em ∉ fromTomorrow.keys)
    (hown : em ≠ jsText "__proto__") (hrow : row.updatedAt < 2) (clock : Nat → Rat) :
    maxEmailKeys ≤ aheadOf (setKey (sanitizeEmailUserIdMap plainConvert clock
      (fromTomorrow.mapVal EmailRow.toVal)) em row) em := by
  have hget := fun k => get?_setKey (sanitizeEmailUserIdMap plainConvert clock
    (fromTomorrow.mapVal EmailRow.toVal)) hown k row
  generalize hmap : setKey (sanitizeEmailUserIdMap plainConvert clock
    (fromTomorrow.mapVal EmailRow.toVal)) em row = map at hget ⊢
  have htime : timeOf map em = row.updatedAt := by
    rw [timeOf, hget, if_pos rfl]
  have hnewer : fromTomorrow.keys ⊆ (objectKeys map).filter fun k =>
      decide (timeOf map em < timeOf map k) || decide (timeOf map em = timeOf map k) &&
        decide (k ∈ (objectKeys map).takeWhile fun x => x ≠ em) := by
    intro k hk
    obtain ⟨row', hget'⟩ := ObjMap.mem_keys_iff.mp hk
    obtain ⟨t, ht⟩ := (get?_sanitize_mapVal clean_fromTomorrow clock k).1 row' hget'
    have hne : k ≠ em := fun h => hem (h ▸ hk)
    rw [(get?_fromTomorrow hget').1] at ht
    have hread := (hget k).trans (if_neg hne)
    rw [ht] at hread
    have htwo : timeOf map k = 2 := by
      rw [timeOf, hread]
      simp [entryTime, field_toVal, JsVal.truthy]
    rw [List.mem_filter]
    refine ⟨mem_objectKeys.mpr ⟨_, hread⟩, ?_⟩
    simp [htime, htwo, hrow]
  have hlen : fromTomorrow.keys.length = maxEmailKeys := by
    simp [ObjMap.keys, fromTomorrow]
  rw [aheadOf, List.countP_eq_length_filter, ← hlen]
  exact (List.subperm_of_subset fromTomorrow.nodup hnewer).length_le

/-- As many entries are from tomorrow as may stay, and the new one goes. -/
theorem not_cacheEmailUserId :
    ¬ ∀ (conv : Convert),
      (∀ s, normalizeEmail conv (normalizeEmail conv s) = normalizeEmail conv s) →
      ∀ (clock clock' : Nat → Rat) (now : Rat) (email : JsStr) (userId : JsVal)
        (raw : ObjMap JsStr JsVal), 0x40 ∈ normalizeEmail conv email →
        parseNumericUserId conv userId ≠ [] →
        let map := withEmail conv clock now (normalizeEmail conv email)
          (parseNumericUserId conv userId) raw
        let stored := cacheEmailUserId conv clock now email userId raw
        stored.keys.length ≤ maxEmailKeys ∧
          findCachedUserIdByEmail conv clock' email stored = parseNumericUserId conv userId ∧
          ∀ k ∈ stored.keys, stored.get? k = (map.get? k).map EmailRow.toVal ∧
            ∀ k' ∈ map.keys, k' ∉ stored.keys → timeOf map k' ≤ timeOf map k := by
  intro h
  have hfound := (h plainConvert normalizeEmail_plainConvert (fun _ => 1) (fun _ => 1) 1
    (jsText "b@") (.str (jsText "7")) (fromTomorrow.mapVal EmailRow.toVal) (by decide)
    (by decide)).2.1
  have hentry := cleanEntry_email normalizeEmail_plainConvert
    (by decide : 0x40 ∈ normalizeEmail plainConvert (jsText "b@"))
    (by decide : parseNumericUserId plainConvert (.str (jsText "7")) ≠ []) 1
  have hmap := Clean.withEmail normalizeEmail_plainConvert (fun _ => 1) 1
    (fromTomorrow.mapVal EmailRow.toVal) hentry
  have hget := get?_setKey (sanitizeEmailUserIdMap plainConvert (fun _ => 1)
    (fromTomorrow.mapVal EmailRow.toVal)) hentry.own
  have hahead := (find_storedRows_iff hmap (fun _ => 1)
    ((hget _ ⟨jsText "7", 1⟩).trans (if_pos rfl))).mp hfound
  have hother : normalizeEmail plainConvert (jsText "b@") ∉ fromTomorrow.keys := by
    intro hmem
    obtain ⟨row, hrow⟩ := ObjMap.mem_keys_iff.mp hmem
    obtain ⟨-, n, hn⟩ := get?_fromTomorrow hrow
    exact emailOf_ne n hn.symm
  have hone : (⟨jsText "7", 1⟩ : EmailRow).updatedAt < 2 := by decide
  have hle := le_aheadOf_fromTomorrow hother hentry.own hone fun _ => 1
  exact absurd hahead (Nat.not_lt.mpr hle)

end VTranser.Worker
