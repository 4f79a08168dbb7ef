import GoAmqp.Conn.Negotiate

set_option autoImplicit false

/-! # Credentials in the initial response (`sasl.go`)

`PLAIN` and `XOAUTH2` put the two credentials into one byte string, with a separator byte behind the first.
A server that splits the string gets them back as long as they do not contain the separator. `XOAUTH2`
checks this, in range loops over the code points of the strings; `PLAIN` does not. -/

namespace GoAmqp

open Lib SASLHandler List

/-- `saslXOAUTH2InitialResponse` with its checks as the source has them, on code points. -/
def saslXOAUTH2RuneResponse (username bearer : Bytes) : Except String Bytes :=
  if bearer.length = 0 then .error "unacceptable bearer token"
  else if (runes bearer).any fun char => char < 0x20 || char > 0x7E then .error "unacceptable bearer token"
  else if (runes username).any fun char => char = 0x01 then .error "unacceptable username"
  else .ok (ascii "user=" ++ username ++ 0x01 :: ascii "auth=Bearer " ++ bearer ++ [0x01, 0x01])

/-- No code point that the checks look for hides in a longer sequence, and none is made up by an invalid
    one: the checks can be made on the bytes. -/
theorem saslXOAUTH2RuneResponse_eq (username bearer : Bytes) :
    saslXOAUTH2RuneResponse username bearer = saslXOAUTH2InitialResponse username bearer := by
  have hbearer : ((runes bearer).any fun char => char < 0x20 || char > 0x7E)
      = bearer.any fun char => char < 0x20 || char > 0x7E := by
    rw [any_runes (v := true)]
    · simp [UInt8.lt_iff_toNat_lt]
    · intro n hn
      simp
      omega
  have husername : ((runes username).any fun char => char = 0x01) = username.any fun char => char = 0x01 := by
    rw [any_runes (v := false)]
    · simp [← UInt8.toNat_inj]
    · intro n hn
      simp
      omega
  rw [saslXOAUTH2RuneResponse, saslXOAUTH2InitialResponse, hbearer, husername]
  simp

variable {username bearer response : Bytes}

/-- What the checks leave. -/
theorem saslXOAUTH2RuneResponse_ok (h : saslXOAUTH2RuneResponse username bearer = .ok response) :
    1 ∉ username ∧ 1 ∉ bearer ∧ response =
      [1].intercalate [ascii "user=" ++ username, ascii "auth=Bearer " ++ bearer, [], []] := by
  rw [saslXOAUTH2RuneResponse_eq, saslXOAUTH2InitialResponse] at h
  split_ifs at h with hempty hbearer husername
  cases h
  refine ⟨?_, ?_, ?_⟩
  · simpa using husername
  · intro hmem
    exact hbearer (any_eq_true.mpr ⟨1, hmem, by decide⟩)
  · simp [intercalate]

/-- Splitting at the separators gives the two fields, and the two empty ones behind them. -/
theorem splitOn_xoauth2 (h : saslXOAUTH2RuneResponse username bearer = .ok response) :
    response.splitOn 1 = [ascii "user=" ++ username, ascii "auth=Bearer " ++ bearer, [], []] := by
  obtain ⟨husername, hbearer, rfl⟩ := saslXOAUTH2RuneResponse_ok h
  refine splitOn_intercalate 1 ?_ (by simp)
  have huser : 1 ∉ ascii "user=" := by decide
  have hauth : 1 ∉ ascii "auth=Bearer " := by decide
  simp [husername, hbearer, huser, hauth]

variable {password : Bytes}

theorem splitOn_plain (husername : 0 ∉ username) :
    (plain username password).init.initialResponse.splitOn 0
      = [] :: username :: password.splitOn 0 := by
  show ([] ++ 0 :: (username ++ 0 :: password)).splitOn 0 = _
  rw [splitOn_append_cons_self_of_not_mem (by simp), splitOn_append_cons_self_of_not_mem husername]

/-- A zero byte in a field is taken for the end of it. -/
theorem splitOn_plain_iff :
    (plain username password).init.initialResponse.splitOn 0 = [[], username, password] ↔
      0 ∉ username ∧ 0 ∉ password := by
  constructor
  · intro h
    have husername : 0 ∉ username := by
      intro hmem
      obtain ⟨start, rest, heq, hstart⟩ := eq_append_cons_of_mem hmem
      have hsplit : (plain start (rest ++ 0 :: password)).init.initialResponse.splitOn 0
          = [[], username, password] := by
        rw [← h, heq]
        simp [init]
      rw [splitOn_plain hstart] at hsplit
      injection hsplit with _ hsplit
      injection hsplit with hshort _
      simpa using congrArg List.length (hshort.trans heq)
    refine ⟨husername, fun hmem => ?_⟩
    obtain ⟨start, rest, heq, hstart⟩ := eq_append_cons_of_mem hmem
    rw [splitOn_plain husername, heq, splitOn_append_cons_self_of_not_mem hstart] at h
    injection h with _ h
    injection h with _ h
    injection h with hshort _
    simpa using congrArg List.length hshort
  · rintro ⟨husername, hpassword⟩
    rw [splitOn_plain husername, splitOn_eq_singleton hpassword]

/-- A zero byte in a field gives another pair with the same response. -/
theorem plain_unique_iff :
    (∀ username' password' : Bytes, (plain username' password').init.initialResponse
        = (plain username password).init.initialResponse →
      username' = username ∧ password' = password) ↔ 0 ∉ username ∧ 0 ∉ password := by
  constructor
  · intro h
    constructor
    · intro hmem
      obtain ⟨start, rest, rfl⟩ := append_of_mem hmem
      have hsame := (h start (rest ++ 0 :: password) (by simp [init])).1
      simpa using congrArg List.length hsame
    · intro hmem
      obtain ⟨start, rest, rfl⟩ := append_of_mem hmem
      have hsame := (h (username ++ 0 :: start) rest (by simp [init])).1
      simpa using congrArg List.length hsame
  · rintro ⟨husername, hpassword⟩ username' password' heq
    have heq : username' ++ 0 :: password' = username ++ 0 :: password := by
      simpa [init] using heq
    -- what is left of the longer of the two user names starts with the separator
    rcases append_eq_append_iff.mp heq with ⟨_ | ⟨b, rest⟩, hlong, hrest⟩ | ⟨_ | ⟨b, rest⟩, hlong, hrest⟩
      <;> simp_all

/-- **The initial responses are unambiguous** for `XOAUTH2`, and for `PLAIN` exactly if neither credential
    contains a zero byte: no other pair has the same response, and splitting the response at its separators
    gives the credentials back. -/
theorem initialResponse_unambiguous (username secret : Bytes) :
    ((plain username secret).init.initialResponse.splitOn 0 = [[], username, secret] ↔ 0 ∉ username ∧ 0 ∉ secret) ∧
    ((∀ username' secret' : Bytes, (plain username' secret').init.initialResponse
        = (plain username secret).init.initialResponse →
      username' = username ∧ secret' = secret) ↔ 0 ∉ username ∧ 0 ∉ secret) ∧
    ∀ response : Bytes, saslXOAUTH2RuneResponse username secret = .ok response →
      response.splitOn 1 = [ascii "user=" ++ username, ascii "auth=Bearer " ++ secret, [], []] ∧
      ∀ username' secret' : Bytes, saslXOAUTH2RuneResponse username' secret' = .ok response →
        username = username' ∧ secret = secret' := by
  refine ⟨splitOn_plain_iff, plain_unique_iff, fun response h => ⟨splitOn_xoauth2 h, ?_⟩⟩
  intro username' secret' h'
  have hsplit := (splitOn_xoauth2 h).symm.trans (splitOn_xoauth2 h')
  simpa using hsplit

theorem initialResponse_unambiguous_guest :
    (plain (ascii "guest") (ascii "pw")).init.initialResponse.splitOn 0
      = [[], ascii "guest", ascii "pw"] ∧
    (ascii "user=guest\x01auth=Bearer t\x01\x01").splitOn 1
      = [ascii "user=guest", ascii "auth=Bearer t", [], []] :=
  ⟨(initialResponse_unambiguous (ascii "guest") (ascii "pw")).1.mpr (by decide),
    ((initialResponse_unambiguous (ascii "guest") (ascii "t")).2.2 _ (by decide +kernel)).1⟩

/-- With a zero byte in the user name, the server can read a part of it as the password. -/
theorem plain_response_ambiguous :
    (plain (ascii "a\x00b") (ascii "c")).init.initialResponse
      = (plain (ascii "a") (ascii "b\x00c")).init.initialResponse ∧
    ascii "a\x00b" ≠ ascii "a" ∧ ascii "c" ≠ ascii "b\x00c" := by
  decide

end GoAmqp
