import VTranser.Password

/-!
# A password fits its own record

None of the fields has a `$` in it, so the record falls into the four it was made of.
The salt is read back as it was written, and two hashes have the same text only if
they are the same.
-/

namespace VTranser.Password

open Base64

/-- The text of an address is the digits alone. -/
theorem base64url_eq (bytes : List UInt8) :
    base64url bytes = ((sextets bytes).map digit).map toUrlDigit := by
  have hfill : toUrlDigit fill = fill := by decide
  have hne : ∀ u ∈ ((sextets bytes).map digit).map toUrlDigit, (u == fill) = false := by
    rw [List.forall_mem_map]
    exact @forall_mem_map_digit (fun u => (toUrlDigit u == fill) = false) (by decide) bytes
  rw [base64url, encode, List.map_append, filling, List.map_replicate, hfill, List.rdropWhile,
    List.reverse_append, List.reverse_replicate, List.dropWhile_append_of_pos (by simp),
    List.dropWhile_eq_self_iff.mpr, List.reverse_reverse]
  intro hlen
  rw [hne _ (List.mem_reverse.mp (List.getElem_mem hlen))]
  exact Bool.false_ne_true

/-- What was written for an address is read back, whatever its length. -/
theorem base64urlToBytes_base64url (bytes : List UInt8) :
    base64urlToBytes (base64url bytes) = some bytes := by
  have hdigit := @forall_mem_map_digit (fun u => (ofUrlDigit ∘ toUrlDigit) u = id u) (by decide)
    bytes
  have hback : ((sextets bytes).map digit).map (ofUrlDigit ∘ toUrlDigit) =
      (sextets bytes).map digit := (List.map_congr_left hdigit).trans (List.map_id _)
  rw [base64urlToBytes, base64url_eq, List.map_map, hback]
  exact decode_encode bytes

theorem base64url_inj {a b : List UInt8} : base64url a = base64url b ↔ a = b := by
  refine ⟨fun h => ?_, congrArg base64url⟩
  have hread := congrArg base64urlToBytes h
  rwa [base64urlToBytes_base64url, base64urlToBytes_base64url, Option.some_inj] at hread

theorem dollar_not_mem_base64url (bytes : List UInt8) : 0x24 ∉ base64url bytes := by
  intro hmem
  rw [base64url_eq] at hmem
  obtain ⟨u, hu, hdollar⟩ := List.mem_map.mp hmem
  exact @forall_mem_map_digit (fun u => toUrlDigit u ≠ 0x24) (by decide) bytes u hu hdollar

/-- A record falls into the fields it was made of. -/
theorem splitOn_makePasswordHash (browser : Browser) (salt : List UInt8) (password : JsStr) :
    (makePasswordHash browser salt password).splitOn 0x24 =
      [jsText "pbkdf2_sha256", jsText (toString pbkdf2Iters), base64url salt,
        base64url (pbkdf2 browser password salt pbkdf2Iters)] := by
  have hdollar : jsText "$" = [0x24] := by decide
  simp only [makePasswordHash, hdollar, List.append_assoc, List.cons_append, List.nil_append]
  rw [List.splitOn_append_cons_self_of_not_mem (by decide),
    List.splitOn_append_cons_self_of_not_mem (by decide +kernel),
    List.splitOn_append_cons_self_of_not_mem (dollar_not_mem_base64url salt),
    List.splitOn_eq_singleton (dollar_not_mem_base64url _)]

/-- Bytes are read back from their text, and a password fits the record of another if
and only if both have the same hash with its salt and its rounds. -/
theorem password_round_trip (browser : Browser) :
    (∀ bytes, base64urlToBytes (base64url bytes) = some bytes) ∧
      ∀ candidate password salt,
        verifyPassword browser candidate (makePasswordHash browser salt password) =
          some (decide (pbkdf2 browser candidate salt pbkdf2Iters =
            pbkdf2 browser password salt pbkdf2Iters)) := by
  refine ⟨base64urlToBytes_base64url, fun candidate password salt => ?_⟩
  have hiters : toNumber browser (jsText (toString pbkdf2Iters)) = some (pbkdf2Iters : Rat) := by
    have hvalue : (jsText (toString pbkdf2Iters)).foldl
        (fun n u => 10 * n + (u.toNat - 0x30)) 0 = pbkdf2Iters := by decide +kernel
    rw [toNumber, if_pos (by decide +kernel), hvalue]
  have hpos : (pbkdf2Iters : Rat) ≠ 0 := by decide
  rw [verifyPassword, splitOn_makePasswordHash]
  dsimp only
  rw [if_neg (by simp), hiters, base64urlToBytes_base64url]
  simp only [hpos, if_false, Option.map_some, base64url_inj]

end VTranser.Password
