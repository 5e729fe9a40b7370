import PostgresChat.Auth.Service
import PostgresChat.Js.Encode

/-!
# The layout of tokens

`jwtService.sign` writes a header, the claims and a signature, the first two in base64url and
separated by points. The claims stand in the order in which the service gives them, so the id of the
user comes first and the time of issue last; and the header and the id alone fill more than the 72
bytes that bcrypt looks at. All refresh tokens of a user therefore have the same hashes, and
`refresh` takes the first active session of the user for the one it looks for.
-/

namespace PostgresChat

/-! ## base64url -/

/-- The character of six bits. -/
def base64Unit (n : ℕ) : UInt16 :=
  if n < 26 then (0x41 + n).toUInt16
  else if n < 52 then (0x61 + (n - 26)).toUInt16
  else if n < 62 then (0x30 + (n - 52)).toUInt16
  else if n = 62 then 0x2D
  else 0x5F

/-- base64url without padding. -/
def base64url : List UInt8 → JsString
  | [] => []
  | [a] => [base64Unit (a.toNat / 4), base64Unit (a.toNat % 4 * 16)]
  | [a, b] =>
    [base64Unit (a.toNat / 4), base64Unit (a.toNat % 4 * 16 + b.toNat / 16),
      base64Unit (b.toNat % 16 * 4)]
  | a :: b :: c :: rest =>
    base64Unit (a.toNat / 4) :: base64Unit (a.toNat % 4 * 16 + b.toNat / 16) ::
      base64Unit (b.toNat % 16 * 4 + c.toNat / 64) :: base64Unit (c.toNat % 64) :: base64url rest

/-- Three bytes make four characters. -/
theorem base64url_append {xs : List UInt8} (ys : List UInt8) (h : xs.length % 3 = 0) :
    base64url (xs ++ ys) = base64url xs ++ base64url ys := by
  induction xs using base64url.induct with
  | case1 => rfl
  | case2 a => simp at h
  | case3 a b => simp at h
  | case4 a b c rest ih =>
    have hrest : rest.length % 3 = 0 := by
      rw [List.length_cons, List.length_cons, List.length_cons] at h
      omega
    rw [List.cons_append, List.cons_append, List.cons_append, base64url, base64url, ih hrest]
    rfl

theorem length_base64url {xs : List UInt8} (h : xs.length % 3 = 0) :
    (base64url xs).length = xs.length / 3 * 4 := by
  induction xs using base64url.induct with
  | case1 => rfl
  | case2 a => simp at h
  | case3 a b => simp at h
  | case4 a b c rest ih =>
    have hrest : rest.length % 3 = 0 := by
      rw [List.length_cons, List.length_cons, List.length_cons] at h
      omega
    simp only [base64url, List.length_cons, ih hrest]
    omega

theorem isAscii_base64Unit {n : ℕ} (h : n < 64) : JsString.isAscii (base64Unit n) = true := by
  revert n
  decide

theorem isAscii_base64url (xs : List UInt8) : ∀ u ∈ base64url xs, JsString.isAscii u = true := by
  have hbound : ∀ a : UInt8, a.toNat < 256 := UInt8.toNat_lt
  induction xs using base64url.induct with
  | case1 => rintro u ⟨⟩
  | case2 a =>
    have ha := hbound a
    rw [base64url, List.forall_mem_cons, List.forall_mem_singleton]
    exact ⟨isAscii_base64Unit (by omega), isAscii_base64Unit (by omega)⟩
  | case3 a b =>
    have ha := hbound a
    have hb := hbound b
    rw [base64url, List.forall_mem_cons, List.forall_mem_cons, List.forall_mem_singleton]
    exact ⟨isAscii_base64Unit (by omega), isAscii_base64Unit (by omega),
      isAscii_base64Unit (by omega)⟩
  | case4 a b c rest ih =>
    have ha := hbound a
    have hb := hbound b
    have hc := hbound c
    rw [base64url, List.forall_mem_cons, List.forall_mem_cons, List.forall_mem_cons,
      List.forall_mem_cons]
    exact ⟨isAscii_base64Unit (by omega), isAscii_base64Unit (by omega),
      isAscii_base64Unit (by omega), isAscii_base64Unit (by omega), ih⟩

/-! ## Tokens -/

/-- The header of jsonwebtoken. -/
def jwtHeader : JsString := JsString.lit "\x7b\"alg\":\"HS256\",\"typ\":\"JWT\"\x7d"

/-- The claims as `sign` writes them. -/
def JwtPayload.text (payload : JwtPayload) (iat expiresIn : ℕ) : JsString :=
  JsString.lit "\x7b\"sub\":" ++ payload.sub.quote ++
    (JsString.lit ",\"username\":" ++ payload.username.quote ++
      (payload.type.map fun type ↦ JsString.lit ",\"type\":" ++ type.quote).getD [] ++
      JsString.lit ",\"iat\":" ++ JsNumber.decimal iat ++
      JsString.lit ",\"exp\":" ++ JsNumber.decimal (iat + expiresIn) ++ JsString.lit "\x7d")

/-- A token with a given signature. -/
def jwt (payload : JwtPayload) (iat expiresIn : ℕ) (signature : JsString) : JsString :=
  base64url jwtHeader.utf8 ++ JsString.lit "." ++ base64url (payload.text iat expiresIn).utf8 ++
    JsString.lit "." ++ signature

/-- `sign` writes header, claims and signature. -/
def AuthLibraries.SignsJwt (lib : AuthLibraries) : Prop :=
  ∀ secret payload iat expiresIn, ∃ signature,
    lib.sign secret payload iat expiresIn = jwt payload iat expiresIn signature

/-- The bytes of a text that bcrypt looks at. -/
def bcryptBytes (plain : JsString) : List UInt8 := plain.utf8.take 72

/-- bcrypt looks at no other bytes, and accepts what was hashed. -/
structure AuthLibraries.Bcrypt (lib : AuthLibraries) : Prop where
  hash : ∀ salt plain plain', bcryptBytes plain = bcryptBytes plain' →
    lib.hash salt plain = lib.hash salt plain'
  compare : ∀ plain plain' hashed, bcryptBytes plain = bcryptBytes plain' →
    lib.compare plain hashed = lib.compare plain' hashed
  accepts : ∀ salt plain, lib.compare plain (lib.hash salt plain) = true

/-! ## The first 72 bytes -/

/-- Seventy-two ASCII characters are all that bcrypt looks at. -/
theorem bcryptBytes_append {s : JsString} (h : ∀ u ∈ s, JsString.isAscii u = true)
    (hlength : 72 ≤ s.length) (t : JsString) :
    bcryptBytes (s ++ t) = (s.map fun u ↦ u.toNat.toUInt8).take 72 := by
  rw [bcryptBytes, JsString.utf8_append_of_isAscii h, List.take_append_of_le_length]
  rwa [List.length_map]

/-- The id of a user needs no escapes. -/
theorem isPlain_of_mem_text {id : Uuid} {u : UInt16} (h : u ∈ id.text) :
    JsString.isPlain u = true := by
  rcases Uuid.eq_of_mem_printDigits h with rfl | ⟨d, rfl⟩
  · rfl
  · clear h
    revert d
    decide

/-- What all refresh tokens for a user id begin with: the header, the point, and fourteen groups of
four characters for the first forty-two bytes of the claims. -/
def tokenHead (id : Uuid) : JsString :=
  base64url jwtHeader.utf8 ++ JsString.lit "." ++
    base64url (((JsString.lit "\x7b\"sub\":\"" ++ id.text).take 42).map fun u ↦ u.toNat.toUInt8)

theorem length_tokenHead (id : Uuid) : (tokenHead id).length = 93 := by
  have hbytes : (((JsString.lit "\x7b\"sub\":\"" ++ id.text).take 42).map
      fun u ↦ u.toNat.toUInt8).length = 42 := by
    rw [List.length_map, List.length_take, List.length_append, Uuid.length_text]
    rfl
  rw [tokenHead, List.length_append, length_base64url (by rw [hbytes]), hbytes]
  decide

theorem isAscii_of_mem_tokenHead {id : Uuid} : ∀ u ∈ tokenHead id, JsString.isAscii u = true := by
  intro u hu
  rw [tokenHead, List.mem_append, List.mem_append] at hu
  rcases hu with (hu | hu) | hu
  · exact isAscii_base64url _ u hu
  · obtain rfl := List.mem_singleton.mp hu
    rfl
  · exact isAscii_base64url _ u hu

/-- The claims begin with the id of the user. -/
theorem text_eq_append (id : Uuid) (username : JsString) (type : Option JsString)
    (iat expiresIn : ℕ) : ∃ rest, JwtPayload.text ⟨id.text, username, type⟩ iat expiresIn =
      (JsString.lit "\x7b\"sub\":\"" ++ id.text) ++ rest := by
  have hquote : JsString.lit "\x7b\"sub\":" ++ id.text.quote =
      (JsString.lit "\x7b\"sub\":\"" ++ id.text) ++ [0x22] := by
    rw [JsString.quote, JsString.escape_of_isPlain fun u ↦ isPlain_of_mem_text]
    rfl
  rw [JwtPayload.text, hquote, List.append_assoc]
  exact ⟨_, rfl⟩

theorem jwt_eq_append (id : Uuid) (username : JsString) (type : Option JsString) (iat expiresIn : ℕ)
    (signature : JsString) :
    ∃ rest, jwt ⟨id.text, username, type⟩ iat expiresIn signature = tokenHead id ++ rest := by
  obtain ⟨rest, hrest⟩ := text_eq_append id username type iat expiresIn
  have hascii : ∀ u ∈ JsString.lit "\x7b\"sub\":\"" ++ id.text, JsString.isAscii u = true := by
    have hliteral : (JsString.lit "\x7b\"sub\":\"").all JsString.isAscii = true := by decide
    rw [List.forall_mem_append]
    exact ⟨List.all_eq_true.mp hliteral,
      fun u hu ↦ JsString.isAscii_of_isPlain (isPlain_of_mem_text hu)⟩
  have hlength : (((JsString.lit "\x7b\"sub\":\"" ++ id.text).take 42).map
      fun u ↦ u.toNat.toUInt8).length % 3 = 0 := by
    rw [List.length_map, List.length_take, List.length_append, Uuid.length_text]
    rfl
  have hclaims : base64url (JwtPayload.text ⟨id.text, username, type⟩ iat expiresIn).utf8 =
      base64url (((JsString.lit "\x7b\"sub\":\"" ++ id.text).take 42).map
        fun u ↦ u.toNat.toUInt8) ++
      base64url (((JsString.lit "\x7b\"sub\":\"" ++ id.text).drop 42).map
        (fun u ↦ u.toNat.toUInt8) ++ rest.utf8) := by
    rw [hrest, JsString.utf8_append_of_isAscii hascii, ← base64url_append _ hlength,
      ← List.append_assoc, ← List.map_append, List.take_append_drop]
  rw [jwt, hclaims, tokenHead]
  simp only [List.append_assoc]
  exact ⟨_, rfl⟩

/-- **Seventy-two bytes.** bcrypt cannot tell the refresh tokens of a user from each other. -/
theorem bcryptBytes_signRefreshToken {lib : AuthLibraries} (hjwt : lib.SignsJwt) {user user' : User}
    (hid : user.id = user'.id) (iat iat' : ℕ) :
    bcryptBytes (lib.signRefreshToken user iat) =
      bcryptBytes (lib.signRefreshToken user' iat') := by
  have htoken : ∀ (user : User) (iat : ℕ), bcryptBytes (lib.signRefreshToken user iat) =
      ((tokenHead user.id).map fun u ↦ u.toNat.toUInt8).take 72 := by
    intro user iat
    obtain ⟨signature, hsign⟩ := hjwt lib.refreshSecret (refreshPayload user) iat
      (refreshTokenTtlDays * 24 * 60 * 60)
    obtain ⟨rest, hrest⟩ := jwt_eq_append user.id user.username (some refreshType) iat
      (refreshTokenTtlDays * 24 * 60 * 60) signature
    rw [AuthLibraries.signRefreshToken, hsign, refreshPayload, hrest]
    exact bcryptBytes_append isAscii_of_mem_tokenHead (by rw [length_tokenHead]; decide) rest
  rw [htoken, htoken, hid]

/-- A session accepts every refresh token of its user. -/
theorem compare_signRefreshToken {lib : AuthLibraries} (hjwt : lib.SignsJwt) (hbcrypt : lib.Bcrypt)
    {user user' : User} (hid : user.id = user'.id) (iat iat' : ℕ) (salt : JsString) :
    lib.compare (lib.signRefreshToken user iat) (lib.hash salt (lib.signRefreshToken user' iat')) =
      true := by
  rw [hbcrypt.compare _ _ _ (bcryptBytes_signRefreshToken hjwt hid iat iat')]
  exact hbcrypt.accepts salt _

end PostgresChat
