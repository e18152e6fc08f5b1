import Agenda.Config.Settings
import Agenda.Decimal.Digits

/-!
# The address of the database

The address joins the user, the password, the host, the port and the name of the database with marks
that are not escaped. It tells what they were exactly when the marks cannot be read in another way:
the user and the password without a colon, the password and the host without an at sign, and no part
of the host or of the name that looks like the end of a port (`Unmistakable`).

* `append_cons_eq`: two ways to split a text at a mark.
* `DatabaseSettings.url_determines_iff`: when the address determines its parts.
* `address_ambiguous`: two users with the same address.
-/
namespace Agenda.Config

open Decimal

/-! ## Splitting at a mark -/

section Splits

variable {x : Char} {a b a' b' w : List Char}

/-- A text is split at the first of its marks, or within what follows it. -/
theorem append_cons_eq (h : a ++ x :: b = a' ++ x :: b') (ha : x ∉ a) :
    a = a' ∧ b = b' ∨ ∃ t, a' = a ++ x :: t ∧ b = t ++ x :: b' := by
  rcases List.append_eq_append_iff.1 h with ⟨t, rfl, ht⟩ | ⟨t, rfl, ht⟩
  · cases t with
    | nil =>
      rw [List.nil_append, List.cons.injEq] at ht
      exact .inl ⟨(List.append_nil a).symm, ht.2⟩
    | cons y t =>
      obtain ⟨rfl, hb⟩ := List.cons.inj ht
      exact .inr ⟨t, rfl, hb⟩
  · cases t with
    | nil =>
      rw [List.nil_append, List.cons.injEq] at ht
      exact .inl ⟨List.append_nil a', ht.2.symm⟩
    | cons y t =>
      obtain ⟨rfl, -⟩ := List.cons.inj ht
      exact absurd (List.mem_append_right a' List.mem_cons_self) ha

/-- A mark that is not in the first part of a text is in the rest. -/
theorem exists_of_append_eq (h : w ++ b = a' ++ x :: b') (hw : x ∉ w) : ∃ t, b = t ++ x :: b' := by
  rcases List.append_eq_append_iff.1 h with ⟨t, -, hb⟩ | ⟨t, rfl, ht⟩
  · exact ⟨t, hb⟩
  · cases t with
    | nil => exact ⟨[], ht.symm⟩
    | cons y t =>
      obtain ⟨rfl, -⟩ := List.cons.inj ht
      exact absurd (List.mem_append_right a' List.mem_cons_self) hw

end Splits

/-! ## Ports -/

/-- The text has a port between a colon and a slash. -/
def HasPort (cs : List Char) : Prop :=
  ∃ (a b : List Char) (port : UInt16), cs = a ++ ':' :: (digits port.toNat ++ '/' :: b)

theorem HasPort.append_left {cs : List Char} (h : HasPort cs) (as : List Char) :
    HasPort (as ++ cs) := by
  obtain ⟨a, b, port, rfl⟩ := h
  exact ⟨as ++ a, b, port, (List.append_assoc ..).symm⟩

theorem HasPort.cons {cs : List Char} (h : HasPort cs) (c : Char) : HasPort (c :: cs) :=
  h.append_left [c]

theorem not_mem_digits {c : Char} (hc : c.isDigit = false) (n : Nat) : c ∉ digits n := fun hmem => by
  have hdigit := isDigit_of_mem_digits hmem
  rw [hc] at hdigit
  cases hdigit

theorem port_eq_of_digits {m n : UInt16} (h : digits m.toNat = digits n.toNat) : m = n :=
  UInt16.toNat_inj.1 (by rw [← ofDigits_digits m.toNat, h, ofDigits_digits])

/-! ## The address -/

namespace DatabaseSettings

/-- The part of the address that the settings decide. -/
def target (c : DatabaseSettings) : List Char :=
  c.user.toList ++ ':' :: (c.password.toList ++ '@' ::
    (c.host.toList ++ ':' :: (digits c.port.toNat ++ '/' :: c.db.toList)))

theorem toString_port (n : UInt16) : toString n = String.ofList (digits n.toNat) :=
  Nat.repr_eq_ofList_toDigits

theorem toList_url (c : DatabaseSettings) :
    c.url.toList = "postgres://".toList ++ (c.target ++ "?sslmode=disable".toList) := by
  unfold url target
  rw [toString_port]
  simp only [String.toList_append, String.toList_ofList, List.append_assoc, List.cons_append]
  rfl

theorem url_eq_iff {c c' : DatabaseSettings} : c.url = c'.url ↔ c.target = c'.target := by
  rw [← String.toList_inj, toList_url, toList_url, List.append_cancel_left_eq,
    List.append_cancel_right_eq]

/-- The same user, password, host, port and name. -/
structure SameParts (c c' : DatabaseSettings) : Prop where
  user : c.user = c'.user
  password : c.password = c'.password
  host : c.host = c'.host
  port : c.port = c'.port
  db : c.db = c'.db

/-- No part of the address can be read in another way. -/
structure Unmistakable (c : DatabaseSettings) : Prop where
  user : ':' ∉ c.user.toList
  passwordColon : ':' ∉ c.password.toList
  passwordAt : '@' ∉ c.password.toList
  hostAt : '@' ∉ c.host.toList
  host : ¬ HasPort c.host.toList
  db : ¬ HasPort c.db.toList

/-! ## From the address to its parts -/

section Parts

variable {h d q h' d' : List Char} {n n' : UInt16}

/-- What follows the at sign: the host, the port and the name. -/
def location (h : List Char) (n : UInt16) (d : List Char) : List Char :=
  h ++ ':' :: (digits n.toNat ++ '/' :: d)

theorem hasPort_location : HasPort (location h n d) := ⟨h, d, n, rfl⟩

/-- A second at sign, with a location after it, is in the name. -/
theorem hasPort_of_location_eq {y : List Char} (hat : '@' ∉ h)
    (heq : location h n d = y ++ '@' :: location h' n' d') : HasPort d := by
  have hw : '@' ∉ h ++ ':' :: (digits n.toNat ++ ['/']) := by
    simp [hat, not_mem_digits]
  have heq' : (h ++ ':' :: (digits n.toNat ++ ['/'])) ++ d = y ++ '@' :: location h' n' d' := by
    rw [← heq, location]
    simp
  obtain ⟨t, rfl⟩ := exists_of_append_eq heq' hw
  exact (hasPort_location.cons '@').append_left t

/-- Ports before a slash are followed by the same. -/
theorem port_inj (heq : digits n.toNat ++ '/' :: d = digits n'.toNat ++ '/' :: d') :
    n = n' ∧ d = d' := by
  rcases append_cons_eq heq (not_mem_digits (by decide) _) with ⟨hn, hd⟩ | ⟨t, hn, -⟩
  · exact ⟨port_eq_of_digits hn, hd⟩
  · have hmem : '/' ∈ digits n'.toNat := by simp [hn]
    exact absurd hmem (not_mem_digits (by decide) _)

/-- A colon after a port is in the name. -/
theorem exists_of_port {y : List Char}
    (heq : digits n.toNat ++ '/' :: d = y ++ ':' :: q) :
    ∃ t, d = t ++ ':' :: q ∧ y = digits n.toNat ++ '/' :: t := by
  have hw : ':' ∉ digits n.toNat ++ ['/'] := by
    simp [not_mem_digits]
  obtain ⟨t, rfl⟩ := exists_of_append_eq ((List.append_assoc ..).trans heq) hw
  have hsplit : y ++ ':' :: q = (digits n.toNat ++ '/' :: t) ++ ':' :: q := by
    rw [← heq]
    simp
  exact ⟨t, rfl, List.append_cancel_right hsplit⟩

/-- A location is split in one way if neither the host nor the name has a port. -/
theorem location_inj (hh : ¬ HasPort h) (hd : ¬ HasPort d)
    (heq : location h n d = location h' n' d') : h = h' ∧ n = n' ∧ d = d' := by
  rcases List.append_eq_append_iff.1 heq with ⟨t, rfl, ht⟩ | ⟨t, rfl, ht⟩
  · cases t with
    | nil => exact ⟨(List.append_nil h).symm, port_inj (List.cons.inj ht).2⟩
    | cons c t =>
      obtain ⟨-, htail⟩ := List.cons.inj ht
      obtain ⟨s, rfl, -⟩ := exists_of_port htail
      exact absurd ⟨s, d', n', rfl⟩ hd
  · cases t with
    | nil =>
      obtain ⟨hn, hd⟩ := port_inj (List.cons.inj ht).2
      exact ⟨List.append_nil h', hn.symm, hd.symm⟩
    | cons c t =>
      obtain ⟨rfl, htail⟩ := List.cons.inj ht
      obtain ⟨s, -, rfl⟩ := exists_of_port htail
      exact absurd ⟨h', s, n', rfl⟩ hh

end Parts

theorem target_eq (c : DatabaseSettings) :
    c.target = c.user.toList ++ ':' :: (c.password.toList ++ '@' ::
      location c.host.toList c.port c.db.toList) := rfl

/-- An unmistakable address has one user, password, host, port and name. -/
theorem Unmistakable.sameParts {c c' : DatabaseSettings} (hc : c.Unmistakable)
    (h : c.target = c'.target) : c.SameParts c' := by
  rw [target_eq, target_eq] at h
  rcases append_cons_eq h hc.user with ⟨huser, h⟩ | ⟨t, -, h⟩
  · rcases append_cons_eq h hc.passwordAt with ⟨hpassword, h⟩ | ⟨t, -, h⟩
    · obtain ⟨hhost, hport, hdb⟩ := location_inj hc.host hc.db h
      exact ⟨String.toList_inj.1 huser, String.toList_inj.1 hpassword, String.toList_inj.1 hhost,
        hport, String.toList_inj.1 hdb⟩
    · exact absurd (hasPort_of_location_eq hc.hostAt h) hc.db
  · -- The colon that was taken for the first one is after the password, which has none.
    have hsplit : c.password.toList ++ '@' :: location c.host.toList c.port c.db.toList =
        (t ++ ':' :: c'.password.toList) ++ '@' ::
          location c'.host.toList c'.port c'.db.toList := by
      rw [h]
      simp
    rcases append_cons_eq hsplit hc.passwordAt with ⟨hpassword, -⟩ | ⟨y, -, h⟩
    · have hmem : ':' ∈ c.password.toList := by simp [hpassword]
      exact absurd hmem hc.passwordColon
    · exact absurd (hasPort_of_location_eq hc.hostAt h) hc.db

/-! ## Other readings -/

section Readings

variable {c : DatabaseSettings} {a b : List Char} {x : Char}

theorem ne_ofList_of_prefix {s : String} (h : s.toList = a ++ x :: b) : s ≠ String.ofList a := by
  rintro rfl
  simp at h

theorem ne_ofList_append (s : String) : s ≠ String.ofList (s.toList ++ x :: b) := fun h => by
  have hlist := congrArg String.toList h
  simp at hlist

/-- Where the address determines its parts, none of them can be read in another way. -/
theorem unmistakable_of_determines (h : ∀ c', c.url = c'.url → c.SameParts c') :
    c.Unmistakable where
  user hmem := by
    obtain ⟨a, b, hab⟩ := List.append_of_mem hmem
    let c' : DatabaseSettings :=
      { c with user := .ofList a, password := .ofList (b ++ ':' :: c.password.toList) }
    have hsame := h c' (url_eq_iff.2 (by simp [target, c', hab]))
    exact ne_ofList_of_prefix hab hsame.user
  passwordColon hmem := by
    obtain ⟨a, b, hab⟩ := List.append_of_mem hmem
    let c' : DatabaseSettings :=
      { c with user := .ofList (c.user.toList ++ ':' :: a), password := .ofList b }
    have hsame := h c' (url_eq_iff.2 (by simp [target, c', hab]))
    exact ne_ofList_append _ hsame.user
  passwordAt hmem := by
    obtain ⟨a, b, hab⟩ := List.append_of_mem hmem
    let c' : DatabaseSettings :=
      { c with password := .ofList a, host := .ofList (b ++ '@' :: c.host.toList) }
    have hsame := h c' (url_eq_iff.2 (by simp [target, c', hab]))
    exact ne_ofList_of_prefix hab hsame.password
  hostAt hmem := by
    obtain ⟨a, b, hab⟩ := List.append_of_mem hmem
    let c' : DatabaseSettings :=
      { c with password := .ofList (c.password.toList ++ '@' :: a), host := .ofList b }
    have hsame := h c' (url_eq_iff.2 (by simp [target, c', hab]))
    exact ne_ofList_append _ hsame.password
  host hport := by
    obtain ⟨a, b, port, hab⟩ := hport
    let c' : DatabaseSettings :=
      { c with host := .ofList a, port, db := .ofList (location b c.port c.db.toList) }
    have hsame := h c' (url_eq_iff.2 (by simp [target, location, c', hab]))
    exact ne_ofList_of_prefix hab hsame.host
  db hport := by
    obtain ⟨a, b, port, hab⟩ := hport
    let c' : DatabaseSettings :=
      { c with host := .ofList (location c.host.toList c.port a), port, db := .ofList b }
    have hsame := h c' (url_eq_iff.2 (by simp [target, location, c', hab]))
    exact ne_ofList_append _ hsame.host

end Readings

/-- The address determines the user, the password, the host, the port and the name of the database
exactly when none of them can be read in another way. -/
theorem url_determines_iff (c : DatabaseSettings) :
    (∀ c', c.url = c'.url → c.SameParts c') ↔ c.Unmistakable :=
  ⟨unmistakable_of_determines, fun hc _ h => hc.sameParts (url_eq_iff.1 h)⟩

/-- A colon in the name of a user is taken for the one before the password. -/
theorem address_ambiguous :
    (⟨false, "localhost", 5432, "ada:x", "y", "calendar", 10⟩ : DatabaseSettings).url =
      (⟨false, "localhost", 5432, "ada", "x:y", "calendar", 10⟩ : DatabaseSettings).url := by
  decide +kernel

end DatabaseSettings

end Agenda.Config
