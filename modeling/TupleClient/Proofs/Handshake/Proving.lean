import TupleClient.Proofs.Handshake.Greeting
import TupleClient.Proofs.Handshake.Login

/-!
The proof of a password before a server that does not know the password. The server has kept the
digest of its digest, and the salt stands in the server's own greeting. That is enough to take the
cover off a proof, and what comes out has the digest that was kept.
-/
namespace TupleClient.Greeting

open Digest

/-- What a server keeps of a password. -/
def verifier (password : String) : Bytes := Sha1.digest (Sha1.digest (Bytes.ofText password))

/-- What a proof is hidden behind. It takes the salt and what the server keeps, and no password. -/
def cover (salt verifier : Bytes) : Bytes := Sha1.digest (salt.take proofLength ++ verifier)

/-- What a server takes for the digest of the password. -/
def uncovered (salt verifier reply : Bytes) : Bytes := reply.zipWith (· ^^^ ·) (cover salt verifier)

/-- The server lets in whoever sends this reply. -/
structure Admits (salt verifier reply : Bytes) : Prop where
  length : reply.length = proofLength
  digest : Sha1.digest (uncovered salt verifier reply) = verifier

theorem zipWith_xor_zipWith {a b : Bytes} (h : a.length ≤ b.length) :
    (a.zipWith (· ^^^ ·) b).zipWith (· ^^^ ·) b = a := by
  induction a generalizing b with
  | nil => rfl
  | cons x xs ih =>
    cases b with
    | nil => simp at h
    | cons y ys =>
      have htail : xs.length ≤ ys.length := Nat.le_of_succ_le_succ h
      simp only [List.zipWith_cons_cons, ih htail, UInt8.xor_assoc, UInt8.xor_self, UInt8.xor_zero]

theorem proof_eq (salt : Bytes) (password : String) :
    proof salt password =
      (Sha1.digest (Bytes.ofText password)).zipWith (· ^^^ ·) (cover salt (verifier password)) :=
  rfl

theorem length_cover (salt verifier : Bytes) : (cover salt verifier).length = proofLength :=
  Sha1.length_digest _

theorem uncovered_proof (salt : Bytes) (password : String) :
    uncovered salt (verifier password) (proof salt password) =
      Sha1.digest (Bytes.ofText password) := by
  rw [uncovered, proof_eq]
  apply zipWith_xor_zipWith
  rw [length_cover, Sha1.length_digest]
  rfl

/-- From nothing else of its length does the server get the digest of the password. -/
theorem eq_proof_of_uncovered {salt reply : Bytes} {password : String}
    (hlength : reply.length = proofLength)
    (h : uncovered salt (verifier password) reply = Sha1.digest (Bytes.ofText password)) :
    reply = proof salt password := by
  have hcover : reply.length ≤ (cover salt (verifier password)).length := by
    rw [hlength, length_cover]
  calc reply = (uncovered salt (verifier password) reply).zipWith (· ^^^ ·)
        (cover salt (verifier password)) := (zipWith_xor_zipWith hcover).symm
    _ = proof salt password := by rw [h, proof_eq]

theorem admits_proof (salt : Bytes) (password : String) :
    Admits salt (verifier password) (proof salt password) where
  length := Handshake.length_proof salt password
  digest := by rw [uncovered_proof, verifier]

theorem proof_of_take_eq {salt other : Bytes} (h : salt.take proofLength = other.take proofLength)
    (password : String) : proof salt password = proof other password := by
  rw [proof_eq, proof_eq, cover, cover, h]

theorem length_salt_of_parse {raw : Bytes} {g : Greeting} (h : parse raw = .ok g) :
    proofLength ≤ g.salt.length := by
  obtain ⟨-, hparse⟩ |
    ⟨-, ⟨banner, hparse⟩ | ⟨reason, hparse⟩ | ⟨banner, salt, -, hsalt, hparse⟩⟩ := parse_cases raw
  all_goals
    rw [hparse] at h
    cases h
  exact (length_of_saltOf hsalt).1

/-- Whatever the password and the salt, the server lets the proof in, and there is no other reply
from which it gets the digest of the password. No byte of a salt counts but the first twenty, so
that a client that was greeted and a server that keeps these twenty agree. -/
theorem proof_admitted (password : String) :
    (∀ salt, Admits salt (verifier password) (proof salt password) ∧
      ∀ reply, reply.length = proofLength →
        uncovered salt (verifier password) reply = Sha1.digest (Bytes.ofText password) →
        reply = proof salt password) ∧
    (∀ salt other, salt.take proofLength = other.take proofLength →
      proof salt password = proof other password) ∧
    ∀ raw g, parse raw = .ok g → (g.salt.take proofLength).length = 20 ∧
      proof g.salt password = proof (g.salt.take proofLength) password ∧
      Admits (g.salt.take proofLength) (verifier password) (proof g.salt password) := by
  refine ⟨fun salt => ⟨admits_proof salt password, fun reply => eq_proof_of_uncovered⟩,
    fun salt other h => proof_of_take_eq h password, fun raw g h => ?_⟩
  have htaken : (g.salt.take proofLength).length = 20 :=
    List.length_take_of_le (length_salt_of_parse h)
  have hsame : proof g.salt password = proof (g.salt.take proofLength) password :=
    proof_of_take_eq (by rw [List.take_take, Nat.min_self]) password
  exact ⟨htaken, hsame, hsame ▸ admits_proof _ password⟩

/-- A salt of 32 bytes, of which the server keeps twenty. -/
theorem proof_admitted_of_greeting :
    let salt : Bytes := (List.range 32).map fun n => UInt8.ofNat (n + 1)
    let raw :=
      written "Tarantool 2.11.1 (Binary)" "                                      \n" salt []
    let reply : Bytes :=
      [179, 43, 179, 165, 131, 225, 52, 12, 10, 17, 8, 213, 139, 27, 228, 151, 129, 173, 140, 47]
    (∃ g, parse raw = .ok g ∧ g.salt = salt ∧ proof g.salt "secret" = reply ∧
      Admits (salt.take 20) (verifier "secret") reply) ∧
    proof (salt.take 20) "secret" = proof salt "secret" ∧
    uncovered salt (verifier "secret") reply = Sha1.digest (Bytes.ofText "secret") ∧
    reply = proof salt "secret" := by
  intro salt raw reply
  have hparse : parse raw = .ok ⟨"Tarantool 2.11.1 (Binary)", some "2.11.1", salt⟩ :=
    parse_written [] (by decide) (by decide) (by decide) (by decide) (by decide)
  have hreply : proof salt "secret" = reply := by decide +kernel
  have huncovered : uncovered salt (verifier "secret") reply =
      Sha1.digest (Bytes.ofText "secret") := by decide +kernel
  obtain ⟨hadmits, hshort, hgreeted⟩ := proof_admitted "secret"
  refine ⟨⟨_, hparse, rfl, hreply, ?_⟩, hshort _ _ (by decide), huncovered,
    (hadmits salt).2 reply rfl huncovered⟩
  rw [← hreply]
  exact (hgreeted raw _ hparse).2.2

end TupleClient.Greeting
