import VTranser.Offscreen.Recording

/-!
# What is saved of a recording

The table is given: the columns it knows, and what it makes of a row that has no
others. Then what a call saves can be said at once: the first of three rows that is not
refused for a foreign key, without the columns that are not known, if it is taken.
-/

namespace VTranser.Offscreen

open Retry

/-- A table: its columns, which unknown column of a row it names, and whether it
refuses a row it knows, for a foreign key or something else. -/
structure Table where
  known : Column → Bool
  names : Row → Option Column
  refuses : Row → Option Bool
  names_some : ∀ row c, names row = some c → c ∈ row.keys ∧ known c = false
  names_none : ∀ row, names row = none → ∀ c ∈ row.keys, known c = true

namespace Table

/-- A row is sent to the table. -/
def post (t : Table) (rows : List Row) (row : Row) : Inserted × List Row :=
  match t.names row with
  | some c => (.unknown c, rows)
  | none =>
      match t.refuses row with
      | some foreignKey => (.refused foreignKey, rows)
      | none => (.taken (), rows ++ [row])

variable {t : Table} {rows : List Row} {row : Row}

theorem knows (t : Table) : Knows t.post t.known where
  names rows row hx := by
    cases hnames : t.names row with
    | none =>
        obtain ⟨c, hc, hunknown⟩ := hx
        rw [t.names_none row hnames c hc] at hunknown
        cases hunknown
    | some c =>
        obtain ⟨hc, hunknown⟩ := t.names_some row c hnames
        exact ⟨c, hc, hunknown, by rw [post, hnames]⟩
  decides rows row c hall := by
    rw [post]
    split
    · next c hnames =>
        obtain ⟨hc, hunknown⟩ := t.names_some row c hnames
        rw [hall c hc] at hunknown
        cases hunknown
    · split <;> exact nofun

/-- The first of some rows that is not refused for a foreign key, if it is taken. -/
def firstTaken (t : Table) : List Row → Option Row
  | [] => none
  | row :: rest =>
      match t.refuses row with
      | none => some row
      | some true => firstTaken t rest
      | some false => none

/-- How many columns of a row are not known. -/
def missing (t : Table) : Nat := (columns.filter fun c => !t.known c).length

theorem post_restrict (t : Table) (rows : List Row) (row : Row) :
    t.post rows (restrict t.known row) =
      match t.refuses (restrict t.known row) with
      | some foreignKey => (.refused foreignKey, rows)
      | none => (.taken (), rows ++ [restrict t.known row]) := by
  rw [post]
  split
  · next c hnames =>
      obtain ⟨hc, hunknown⟩ := t.names_some _ c hnames
      rw [restrict, keys_deleteIf, List.mem_filter] at hc
      simp [hunknown] at hc
  · rfl

end Table

theorem keys_rowOf (value : Column → Value) : (rowOf value).keys = columns := by
  rw [ObjMap.keys, rowOf, List.map_map]
  exact List.map_id columns

theorem get?_rowOf (value : Column → Value) (c : Column) : (rowOf value).get? c = some (value c) := by
  have hmem : ∀ cs : List Column, c ∈ cs →
      (cs.map fun c => (c, value c)).lookup c = some (value c) := by
    intro cs
    induction cs with
    | nil => exact nofun
    | cons c' cs ih =>
        intro h
        rw [List.map_cons, List.lookup_cons]
        by_cases hc : c = c'
        · rw [hc, beq_self_eq_true]
        · rw [beq_eq_false_iff_ne.mpr hc]
          exact ih ((List.mem_cons.mp h).resolve_left hc)
  exact hmem columns (by cases c <;> decide)

/-- One insertion, with all its attempts. -/
theorem insert_eq (t : Table) (rows : List Row) (value : Column → Value) :
    insertVideoRecordingFlexible t.post rows (rowOf value) =
      if t.missing < 10 then
        match t.refuses (restrict t.known (rowOf value)) with
        | some foreignKey => (.answer (.refused foreignKey), rows)
        | none => (.answer (.taken ()), rows ++ [restrict t.known (rowOf value)])
      else (.exceeded, rows) := by
  have hlength : (strangers t.known (rowOf value)).length = t.missing := by
    rw [strangers, keys_rowOf, Table.missing]
  rw [insertVideoRecordingFlexible, shrink_eq t.knows, hlength, t.post_restrict]
  cases t.refuses (restrict t.known (rowOf value)) <;> rfl

/-- What may be nothing in the row that is saved. -/
def givenUp : List (List Column) :=
  [[], [.trSessionId, .chatSessionId], [.userId, .trSessionId, .chatSessionId]]

/-- The rows that are tried, as the table knows them. -/
def tries (t : Table) (base : Column → Value) : List Row :=
  givenUp.map fun nulls => restrict t.known (rowOf (without nulls base))

/-- The row that is saved, if one is. -/
def savedRow (t : Table) (base : Column → Value) : Option Row :=
  if t.missing < 10 then t.firstTaken (tries t base) else none

theorem mem_of_firstTaken {t : Table} {rs : List Row} {row : Row}
    (h : t.firstTaken rs = some row) : row ∈ rs := by
  induction rs with
  | nil => cases h
  | cons r rs ih =>
      rw [Table.firstTaken] at h
      split at h
      · cases h
        exact List.mem_cons_self ..
      · exact List.mem_cons_of_mem _ (ih h)
      · cases h

/-- Its columns. -/
theorem get?_savedRow {t : Table} {base : Column → Value} {row : Row}
    (h : savedRow t base = some row) :
    ∃ nulls ∈ givenUp, ∀ c, row.get? c =
      if t.known c then some (without nulls base c) else none := by
  rw [savedRow] at h
  split at h
  · obtain ⟨nulls, hnulls, rfl⟩ := List.mem_map.mp (mem_of_firstTaken h)
    refine ⟨nulls, hnulls, fun c => ?_⟩
    rw [restrict, ObjMap.get?_deleteIf, get?_rowOf]
    cases t.known c <;> rfl
  · cases h

/-- A row was saved, or there is none. -/
def Settled (rows : List Row) (saved : Option Row) (r : Outcome Column Unit Bool × List Row) :
    Prop :=
  (r.1 = .answer (.taken ()) ↔ saved.isSome) ∧ r.2 = rows ++ saved.toList

/-- Only a foreign key that was refused is a reason to go on. -/
theorem foldl_insertWithout_of_not {σ : Type*} (post : σ → Row → Inserted × σ)
    (base : Column → Value) (nullss : List (List Column)) {r : Outcome Column Unit Bool × σ}
    (h : isForeignKey r.1 = false) :
    nullss.foldl (fun r nulls => insertWithout post nulls base r) r = r := by
  have hstep : ∀ nulls, insertWithout post nulls base r = r := fun nulls => by
    rw [insertWithout, if_neg (by simp [h])]
  induction nullss with
  | nil => rfl
  | cons nulls nullss ih => rw [List.foldl_cons, hstep, ih]

/-- The attempts that are left when a foreign key was refused. -/
theorem foldl_insertWithout {t : Table} (hmissing : t.missing < 10) (rows : List Row)
    (base : Column → Value) (nullss : List (List Column)) :
    Settled rows
      (t.firstTaken (nullss.map fun nulls => restrict t.known (rowOf (without nulls base))))
      (nullss.foldl (fun r nulls => insertWithout t.post nulls base r)
        (.answer (.refused true), rows)) := by
  induction nullss with
  | nil => exact ⟨iff_of_false nofun nofun, (List.append_nil rows).symm⟩
  | cons nulls nullss ih =>
      have hinsert : insertWithout t.post nulls base (.answer (.refused true), rows) =
          insertVideoRecordingFlexible t.post rows (rowOf (without nulls base)) := rfl
      rw [List.foldl_cons, List.map_cons, Table.firstTaken, hinsert, insert_eq, if_pos hmissing]
      cases t.refuses (restrict t.known (rowOf (without nulls base))) with
      | none =>
          rw [foldl_insertWithout_of_not _ _ _ rfl]
          exact ⟨iff_of_true rfl rfl, rfl⟩
      | some foreignKey =>
          cases foreignKey with
          | false =>
              rw [foldl_insertWithout_of_not _ _ _ rfl]
              exact ⟨iff_of_false nofun nofun, (List.append_nil rows).symm⟩
          | true => exact ih

theorem settled_savedRow (t : Table) (rows : List Row) (base : Column → Value) :
    Settled rows (savedRow t base)
      (givenUp.foldl (fun r nulls => insertWithout t.post nulls base r)
        (.answer (.refused true), rows)) := by
  rw [savedRow]
  split
  · next hmissing => exact foldl_insertWithout hmissing rows base givenUp
  · next hmissing =>
      have hfirst : insertWithout t.post [] base (.answer (.refused true), rows) =
          (.exceeded, rows) :=
        (insert_eq t rows (without [] base)).trans (if_neg hmissing)
      rw [givenUp, List.foldl_cons, hfirst, foldl_insertWithout_of_not _ _ _ rfl]
      exact ⟨iff_of_false nofun nofun, (List.append_nil rows).symm⟩

/-- For every table, clock, bucket and recording of a user: when the table knows all but
nine columns at most, what is saved is the first of three rows (as it is, with no
session, with no user either) that is not refused for a foreign key, if it is taken,
without the columns that are not known; nothing is saved otherwise, and the call says
which. The row says it is ready exactly if a bucket took the upload, and where it is. -/
theorem recording_saved (env : Surroundings) (t : Table) {blob : Blob} {cfg : RecordConfig}
    (huid : parseDbId cfg.userId ≠ []) (hsize : blob.size ≠ 0) (rows : List Row) :
    let upload := uploadBlobToStorage env blob cfg
    let base := baseColumn env blob cfg upload
    let saved := savedRow t base
    ((persistRecordedBlob env t.post blob cfg rows).1 = .saved ↔ saved.isSome) ∧
      (persistRecordedBlob env t.post blob cfg rows).2 = rows ++ saved.toList ∧
      ∀ row ∈ saved,
        (∃ nulls ∈ givenUp, ∀ c, row.get? c =
          if t.known c then some (without nulls base c) else none) ∧
        (t.known .status → (row.get? .status = some (.text (jsText "ready")) ↔
          ∃ bucket ∈ storageBucketCandidates, env.takes bucket (storagePath env blob cfg))) := by
  intro upload base saved
  have hempty : ¬ (parseDbId cfg.userId).isEmpty = true := by simpa using huid
  have hsettled := settled_savedRow t rows base
  have hpersist : persistRecordedBlob env t.post blob cfg rows =
      let r := givenUp.foldl (fun r nulls => insertWithout t.post nulls base r)
        (.answer (.refused true), rows)
      if r.1 = .answer (.taken ()) then (.saved, r.2) else (.failed r.1 upload.isSome, r.2) := by
    have hfirst : insertWithout t.post [] base (.answer (.refused true), rows) =
        insertVideoRecordingFlexible t.post rows (rowOf base) := by
      have hbase : without [] base = base := by
        funext c
        rw [without, if_neg List.not_mem_nil]
      show insertVideoRecordingFlexible t.post rows (rowOf (without [] base)) = _
      rw [hbase]
    rw [persistRecordedBlob, if_neg hempty, if_neg hsize, givenUp, List.foldl_cons, hfirst]
    rfl
  rw [hpersist]
  refine ⟨?_, ?_, fun row hrow => ?_⟩
  · rw [← hsettled.1]
    dsimp only
    split <;> simp_all
  · dsimp only
    split <;> exact hsettled.2
  · obtain ⟨nulls, hnulls, hget⟩ := get?_savedRow hrow
    refine ⟨⟨nulls, hnulls, hget⟩, fun hknown => ?_⟩
    have hstatus : without nulls base .status = base .status := by
      have hnot : ∀ nulls ∈ givenUp, Column.status ∉ nulls := by decide
      rw [without, if_neg (hnot nulls hnulls)]
    have hready : upload.isSome ↔
        ∃ bucket ∈ storageBucketCandidates, env.takes bucket (storagePath env blob cfg) := by
      have hsome : ¬ ((parseDbId cfg.userId).isEmpty = true ∨ blob.size = 0) := by
        rintro (h | h)
        · exact hempty h
        · exact hsize h
      rw [show upload = uploadBlobToStorage env blob cfg from rfl, uploadBlobToStorage,
        if_neg hsome]
      dsimp only
      rw [Option.isSome_map, List.find?_isSome]
    rw [hget, if_pos hknown, hstatus, ← hready]
    show some (Value.text (if upload.isSome then _ else _)) = _ ↔ _
    cases upload.isSome <;> decide

/-- A table without the column that is misspelt, in which no session is known. -/
def strictTable : Table where
  known c := c ≠ .constentFlag
  names row := row.keys.find? (· = .constentFlag)
  refuses row := if row.get? .trSessionId = some .null then none else some true
  names_some row c h := by
    have hc := List.find?_some h
    exact ⟨List.mem_of_find?_eq_some h, by simpa using hc⟩
  names_none row h c hc := by simpa using List.find?_eq_none.mp h c hc

/-- The third bucket takes everything. -/
def thirdBucket : Surroundings where
  now := 1700000000000
  parse _ := none
  iso _ := jsText "2023-11-14T22:13:20.000Z"
  digest := []
  takes bucket _ := bucket = jsText "recordings"

theorem recording_saved_strict :
    let r := persistRecordedBlob thirdBucket strictTable.post ⟨9, jsText "video/webm"⟩
      ⟨jsText "7", jsText "12", 5, 9⟩ []
    r.1 = .saved ∧ ∃ row, r.2 = [row] ∧ row.get? .trSessionId = some .null ∧
      row.get? .constentFlag = none ∧ row.get? .status = some (.text (jsText "ready")) := by
  intro r
  have h := @recording_saved thirdBucket strictTable ⟨9, jsText "video/webm"⟩
    ⟨jsText "7", jsText "12", 5, 9⟩ (by decide) (by decide) []
  exact ⟨h.1.mpr (by decide +kernel), _, h.2.1, by decide +kernel, by decide +kernel,
    by decide +kernel⟩

end VTranser.Offscreen
