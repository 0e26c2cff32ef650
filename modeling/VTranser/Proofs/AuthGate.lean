import VTranser.Server.AuthGate

/-!
# Who gets through the gate

Nothing but a token with a good signature opens it, however the token came; and all
that can go wrong in front of that ends in a refusal or an exception. A token that is
good until a time that is no float is refused like one that has expired.
-/

namespace VTranser.Server

variable {lib : AuthLib} {cfg : AuthConfig} {now : Rat}

/-- The number `exp` is before `now`. -/
def InPast (now : Rat) : PyJson → Prop
  | .bool b => (if b then 1 else 0) < now
  | .int n => n < now
  | .float x => x.past now = true
  | _ => False

/-- As a float the number `exp` is before `now`, if it is one at all. -/
def Expired (now : Rat) (exp : PyJson) : Prop :=
  match exp.float? with
  | none => False
  | some none => True
  | some (some x) => x.past now = true

/-- Three parts, the signature of the first two, and an object that says something and
whose `exp` is not `bad`. -/
def TokenVerifies (lib : AuthLib) (bad : PyJson → Prop) (secret : List UInt8)
    (token : PyStr) : Prop :=
  ∃ header payload signature signingInput sig body items,
    token.splitOn '.' = [header, payload, signature] ∧
      lib.encode (header ++ '.' :: payload) = some signingInput ∧
      b64urlDecode signature = some sig ∧ lib.hmacSha256 secret signingInput = sig ∧
      b64urlDecode payload = some body ∧ lib.loadsBytes body = some (.dict items) ∧
      items ≠ [] ∧ ∀ exp, getKey items "exp" = some exp → ¬ bad exp

/-- The message is an object of the type `auth` with this token. -/
def IsAuthMessage (lib : AuthLib) (first : FirstMessage) (token : PyStr) : Prop :=
  ∃ raw items typ, first = .text raw ∧ lib.loads raw = some (.dict items) ∧
    (getOr items [] ["type", "event"]).strip? = some typ ∧ lower typ = "auth".toList ∧
    (getOr items [] ["token"]).strip? = some token

/-- A ticket or a first message that the mode allows and that has a good token. -/
def MayEnter (lib : AuthLib) (cfg : AuthConfig) (bad : PyJson → Prop) (req : AuthRequest)
    (first : FirstMessage) : Prop :=
  (cfg.authMode = .ticket ∨ cfg.authMode = .either) ∧
      TokenVerifies lib bad cfg.wsTicketSecret (extractQueryTicket lib req) ∨
    (cfg.authMode = .message ∨ cfg.authMode = .either) ∧
      ∃ token, IsAuthMessage lib first token ∧ TokenVerifies lib bad cfg.accessJwtSecret token

theorem items?_eq_some {v : PyJson} {items : List (PyStr × PyJson)} :
    v.items? = some items ↔ v = .dict items := by
  cases v with
  | dict items' => simp [PyJson.items?]
  | null | bool | int | float | str | list => exact iff_of_false nofun nofun

theorem checkExp_eq_some {items ok : List (PyStr × PyJson)} :
    checkExp now items = some ok ↔
      items = ok ∧ ∀ exp, getKey items "exp" = some exp → ¬ Expired now exp := by
  rw [checkExp]
  cases getKey items "exp" with
  | none => simp
  | some exp =>
      simp only [Option.bind_some, Option.some.injEq, forall_eq', Expired]
      cases exp.float? with
      | none => simp
      | some x =>
          cases x with
          | none => simp
          | some x => cases hx : x.past now <;> simp [hx]

/-- What `_jwt_hs256_verify` returns. -/
theorem jwtHs256Verify_eq_some {secret : List UInt8} {token : PyStr}
    {ok : List (PyStr × PyJson)} :
    jwtHs256Verify lib now token secret = some ok ↔
      (token ≠ [] ∧ secret ≠ []) ∧ ∃ header payload signature signingInput sig body,
        token.splitOn '.' = [header, payload, signature] ∧
          lib.encode (header ++ '.' :: payload) = some signingInput ∧
          b64urlDecode signature = some sig ∧ lib.hmacSha256 secret signingInput = sig ∧
          b64urlDecode payload = some body ∧ lib.loadsBytes body = some (.dict ok) ∧
          ∀ exp, getKey ok "exp" = some exp → ¬ Expired now exp := by
  rw [jwtHs256Verify, Option.ite_none_left_eq_some, Bool.or_eq_true, List.isEmpty_iff,
    List.isEmpty_iff, not_or]
  refine and_congr_right fun _ => ?_
  split
  · next header payload signature hsplit =>
      simp only [Option.bind_eq_bind, Option.bind_eq_some_iff, ne_eq,
        Option.ite_none_left_eq_some, Decidable.not_not, checkExp_eq_some, items?_eq_some]
      constructor
      · intro hchecks
        obtain ⟨input, hinput, sig, hsig, hmac, body, hbody, loaded, hloaded, items, rfl, rfl,
          hexp⟩ := hchecks
        exact ⟨_, _, _, input, sig, body, hsplit, hinput, hsig, hmac, hbody, hloaded, hexp⟩
      · intro hparts
        obtain ⟨h, p, s, input, sig, body, heq, hinput, hsig, hmac, hbody, hloaded, hexp⟩ := hparts
        rw [hsplit] at heq
        injection heq with hh heq
        injection heq with hp heq
        injection heq with hs
        subst hh hp hs
        exact ⟨input, hinput, sig, hsig, hmac, body, hbody, _, hloaded, ok, rfl, rfl, hexp⟩
  · next hother =>
      refine iff_of_false nofun ?_
      intro hparts
      obtain ⟨h, p, s, input, sig, body, heq, -⟩ := hparts
      exact hother h p s heq

/-- A token is taken, and says something, if and only if it verifies. -/
theorem jwtHs256Verify_iff {secret : List UInt8} (hsecret : secret ≠ []) (token : PyStr) :
    (∃ item items, jwtHs256Verify lib now token secret = some (item :: items)) ↔
      TokenVerifies lib (Expired now) secret token := by
  simp only [jwtHs256Verify_eq_some]
  constructor
  · intro htaken
    obtain ⟨item, items, -, h, p, s, input, sig, body, heq, hinput, hsig, hmac, hbody, hloaded,
      hexp⟩ := htaken
    exact ⟨h, p, s, input, sig, body, _, heq, hinput, hsig, hmac, hbody, hloaded,
      List.cons_ne_nil _ _, hexp⟩
  · intro hverifies
    obtain ⟨h, p, s, input, sig, body, items, heq, hinput, hsig, hmac, hbody, hloaded, hne,
      hexp⟩ := hverifies
    obtain ⟨item, items, rfl⟩ := List.exists_cons_of_ne_nil hne
    have htoken : token ≠ [] := by
      rintro rfl
      cases heq
    exact ⟨item, items, ⟨htoken, hsecret⟩, h, p, s, input, sig, body, heq, hinput, hsig, hmac,
      hbody, hloaded, hexp⟩

/-- A first message that opens the gate shows a good token. -/
theorem token_of_accepted (hsecret : cfg.accessJwtSecret ≠ []) {first : FirstMessage}
    {user : PyStr} {mode : AuthMode} (h : authMessage lib cfg now first = .accepted user mode) :
    ∃ token, IsAuthMessage lib first token ∧ ∃ item items,
      jwtHs256Verify lib now token cfg.accessJwtSecret = some (item :: items) := by
  cases first with
  | timeout | failed | binary => cases h
  | text raw =>
      rw [authMessage] at h
      split at h
      · cases h
      · next obj hobj =>
          split at h
          · cases h
          · next items hitems =>
              rw [items?_eq_some] at hitems
              subst hitems
              split at h
              · cases h
              · next typ htyp =>
                  split at h
                  · cases h
                  · next hauth =>
                      split at h
                      · cases h
                      · next token htoken =>
                          rw [Decidable.not_not] at hauth
                          refine ⟨token, ⟨raw, items, typ, rfl, hobj, htyp, hauth, htoken⟩, ?_⟩
                          split at h
                          · cases h
                          · rw [if_neg (by simpa using hsecret)] at h
                            split at h
                            · cases h
                            · cases h
                            · next payload hne hverified =>
                                cases payload with
                                | nil => exact (hne rfl).elim
                                | cons item items => exact ⟨item, items, hverified⟩

/-- The first message opens the gate if and only if it shows a good token. -/
theorem authMessage_iff (hsecret : cfg.accessJwtSecret ≠ []) (first : FirstMessage) :
    (∃ user mode, authMessage lib cfg now first = .accepted user mode) ↔
      ∃ token, IsAuthMessage lib first token ∧
        TokenVerifies lib (Expired now) cfg.accessJwtSecret token := by
  simp only [← jwtHs256Verify_iff hsecret]
  constructor
  · rintro ⟨user, mode, h⟩
    exact token_of_accepted hsecret h
  · rintro ⟨token, ⟨raw, items, typ, rfl, hraw, htyp, hauth, htoken⟩, item, payload, hverified⟩
    have hne : token.isEmpty = false := by
      have h := (jwtHs256Verify_eq_some.mp hverified).1.1
      simpa using h
    refine ⟨authedUser lib (item :: payload), .message, ?_⟩
    rw [authMessage, hraw]
    simp only [PyJson.items?, htyp, hauth, htoken, hne, hverified, ne_eq, not_true_eq_false,
      if_false, Bool.false_eq_true, List.isEmpty_iff, hsecret]

/-- The gate opens if and only if a good token is shown in a way that the mode allows,
and where it does not there is no recorder. -/
theorem authenticate_iff (lib : AuthLib) (cfg : AuthConfig) (now : Rat) (req : AuthRequest)
    (first : FirstMessage) (hrequire : cfg.requireAuth = true) (hmode : cfg.authMode ≠ .none)
    (hticket : cfg.wsTicketSecret ≠ []) (haccess : cfg.accessJwtSecret ≠ []) :
    ((∃ user mode, authenticate lib cfg now req first = .accepted user mode) ↔
        MayEnter lib cfg (Expired now) req first) ∧
      (¬ MayEnter lib cfg (Expired now) req first →
        makesRecorder (authenticate lib cfg now req first) = false) := by
  have hiff : (∃ user mode, authenticate lib cfg now req first = .accepted user mode) ↔
      MayEnter lib cfg (Expired now) req first := by
    rw [MayEnter, ← jwtHs256Verify_iff hticket, ← authMessage_iff haccess, authenticate,
      if_neg (by simp [hrequire, hmode])]
    dsimp only
    split
    · next item items hpayload =>
        rw [Option.ite_none_right_eq_some, Bool.and_eq_true, Bool.or_eq_true, beq_iff_eq,
          beq_iff_eq] at hpayload
        exact iff_of_true ⟨_, _, rfl⟩ (Or.inl ⟨hpayload.1.2, item, items, hpayload.2⟩)
    · next payload hno =>
        -- No ticket, so the first message decides.
        have hticket : ¬ ((cfg.authMode = .ticket ∨ cfg.authMode = .either) ∧
            ∃ item items, jwtHs256Verify lib now (extractQueryTicket lib req)
              cfg.wsTicketSecret = some (item :: items)) := by
          intro hgood
          obtain ⟨hallowed, item, items, hverified⟩ := hgood
          have hne := (jwtHs256Verify_eq_some.mp hverified).1.1
          refine hno item items ?_
          rw [if_pos, hverified]
          rw [Bool.and_eq_true, Bool.or_eq_true, beq_iff_eq, beq_iff_eq]
          exact ⟨by simpa using hne, hallowed⟩
        rw [or_iff_right hticket]
        split
        · next hallowed =>
            rw [Bool.or_eq_true, beq_iff_eq, beq_iff_eq] at hallowed
            exact (and_iff_right hallowed).symm
        · next hallowed =>
            rw [Bool.or_eq_true, beq_iff_eq, beq_iff_eq] at hallowed
            exact iff_of_false nofun fun h => hallowed h.1
  refine ⟨hiff, fun hnot => ?_⟩
  cases h : authenticate lib cfg now req first with
  | accepted user mode => exact absurd (hiff.mp ⟨user, mode, h⟩) hnot
  | refused reason => rfl
  | raised => rfl

/-- The parts of a token with the header `{"alg":"HS256"}`. -/
def hs256 (payload signature : PyStr) : PyStr :=
  "eyJhbGciOiJIUzI1NiJ9.".toList ++ payload ++ '.' :: signature

/-- The query of a path, when it has one parameter and nothing is escaped. -/
def oneParameter (path : PyStr) : List (PyStr × List PyStr) :=
  match ((path.dropWhile (· ≠ '?')).drop 1).span (· ≠ '=') with
  | (key, _ :: value) => [(key, [value])]
  | (_, []) => []

/-- The path of a request with a ticket. -/
def ticketPath (ticket : PyStr) : PyStr := "/?ticket=".toList ++ ticket

/-- A library for one token: its signature and what its payload says. -/
def oneToken (signature : List UInt8) (items : List (PyStr × PyJson)) : AuthLib where
  hmacSha256 _ _ := signature
  encode s := some (s.map fun c => UInt8.ofNat c.toNat)
  loadsBytes _ := some (.dict items)
  loads _ := none
  parseQs path := some (oneParameter path)
  str
    | .str s => s
    | _ => []

/-- The key of the tokens here is the one letter `k`. -/
def ticketConfig : AuthConfig := ⟨true, .ticket, [0x6B], [0x6B]⟩

/-- A ticket that says `{"sub":"u1"}` opens the gate. -/
theorem authenticate_iff_ticket :
    let payload := "eyJzdWIiOiJ1MSJ9".toList
    let ticket := hs256 payload "o0dxSVvXSkVQcEYQ9yyxajcUMOstMl3FEwONlGh-mGc".toList
    let lib := oneToken [163, 71, 113, 73, 91, 215, 74, 69, 80, 112, 70, 16, 247, 44, 177, 106, 55,
      20, 48, 235, 45, 50, 93, 197, 19, 3, 141, 148, 104, 126, 152, 103]
      [("sub".toList, .str "u1".toList)]
    MayEnter lib ticketConfig (Expired 1700000000) ⟨some (ticketPath ticket), none⟩ .timeout := by
  intro payload ticket lib
  exact (authenticate_iff lib ticketConfig 1700000000 ⟨some (ticketPath ticket), none⟩ .timeout rfl
    (by decide) (by decide) (by decide)).1.mp ⟨"u1".toList, .ticket, by decide +kernel⟩

/-- What says `{"exp":1000...}` with as many zeros as no float has. -/
def farPayload : PyStr :=
  "eyJleHAiOjEw".toList ++ (List.replicate 133 "MDAw".toList).flatten ++ "fQ".toList

def farSignature : PyStr := "sx4EI5Gt9keRRiAgknu_fBdYpLPFRVVswwZUFHiX5tQ".toList

def farLib : AuthLib :=
  oneToken [179, 30, 4, 35, 145, 173, 246, 71, 145, 70, 32, 32, 146, 123, 191, 124, 23, 88, 164,
    179, 197, 69, 85, 108, 195, 6, 84, 20, 120, 151, 230, 212] [("exp".toList, .int (10 ^ 400))]

def farRequest : AuthRequest := ⟨some (ticketPath (hs256 farPayload farSignature)), none⟩

/-- A ticket that is good until `10 ^ 400` is refused. -/
theorem not_authenticate_inPast :
    ¬ ∀ (lib : AuthLib) (cfg : AuthConfig) (now : Rat) (req : AuthRequest) (first : FirstMessage),
      cfg.requireAuth = true → cfg.authMode ≠ .none → cfg.wsTicketSecret ≠ [] →
      cfg.accessJwtSecret ≠ [] →
      ((∃ user mode, authenticate lib cfg now req first = .accepted user mode) ↔
          MayEnter lib cfg (InPast now) req first) ∧
        (¬ MayEnter lib cfg (InPast now) req first →
          makesRecorder (authenticate lib cfg now req first) = false) := by
  intro h
  have hiff := (h farLib ticketConfig (1700000000 : Int) farRequest .timeout rfl (by decide)
    (by decide) (by decide)).1
  have hrefused : authenticate farLib ticketConfig (1700000000 : Int) farRequest .timeout =
      .refused "auth-required" := by decide +kernel
  obtain ⟨body, hbody⟩ := Option.isSome_iff_exists.mp
    (by decide +kernel : (b64urlDecode farPayload).isSome)
  have hverifies : TokenVerifies farLib (InPast (1700000000 : Int)) ticketConfig.wsTicketSecret
      (extractQueryTicket farLib farRequest) := by
    refine ⟨"eyJhbGciOiJIUzI1NiJ9".toList, farPayload, farSignature, _, _, body, _,
      by decide +kernel, rfl, by decide +kernel, rfl, hbody, rfl, by decide, ?_⟩
    intro exp hexp hpast
    obtain rfl : .int (10 ^ 400) = exp := Option.some.inj hexp
    exact absurd (Rat.intCast_lt_intCast.mp hpast) (by decide +kernel)
  obtain ⟨user, mode, haccepted⟩ := hiff.mpr (Or.inl ⟨Or.inl rfl, hverifies⟩)
  rw [hrefused] at haccepted
  cases haccepted

end VTranser.Server
