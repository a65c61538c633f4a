import Mathlib.Data.List.DropRight
import GrpcWeb.Go.Strings

/-!
# The endpoint of a path

A server that is mounted below some path finds the endpoint of a request with `getGRPCEndpoint`: the
match of the regular expression `/[^/]*/[^/]*$` in the path without its trailing slashes, or the
path as it was when nothing matches.

The expression is anchored at the end only, and its two segments have no slash, so it matches at one
place at most (`eq_of_matchesAt`): at the second-last slash. `getGRPCEndpoint_of_two_slashes` and
`getGRPCEndpoint_of_few_slashes` say what comes of every path, and `getGRPCEndpoint_idempotent` that
the endpoint of an endpoint is itself.
-/

namespace GrpcWeb.Server

open Go

def slash : UInt8 := 0x2F

/-- `strings.TrimRight(s, "/")`. -/
def trimSlashes (s : GoString) : GoString := s.rdropWhile (· == slash)

/-- The regular expression matches from the start of the text to its end. -/
def matchesAt : GoString → Bool
  | [] => false
  | c :: s =>
    match s.dropWhile (· ≠ slash) with
    | [] => false
    | _ :: b => c == slash && !b.contains slash

/-- `pathMatcher.FindString(s)`: the leftmost match. -/
def findEndpoint (s : GoString) : GoString := (s.tails.find? matchesAt).getD []

def getGRPCEndpoint (path : GoString) : GoString :=
  let endpoint := findEndpoint (trimSlashes path)
  if endpoint.length = 0 then path else endpoint

/-! ## The matches -/

theorem matchesAt_iff {t : GoString} :
    matchesAt t = true ↔ ∃ a b, t = slash :: a ++ slash :: b ∧ slash ∉ a ∧ slash ∉ b := by
  constructor
  · intro h
    cases t with
    | nil => cases h
    | cons c s =>
      rw [matchesAt] at h
      split at h
      · cases h
      · rename_i d b hd
        obtain ⟨hc, hb⟩ : c = slash ∧ slash ∉ b := by simpa using h
        have hslash : d = slash := by
          have hhead := List.head?_dropWhile_not (fun c => decide (c ≠ slash)) s
          rw [hd] at hhead
          simpa using hhead
        refine ⟨s.takeWhile (· ≠ slash), b, ?_, fun hmem => ?_, hb⟩
        · rw [hslash] at hd
          rw [hc, List.cons_append, ← hd, List.takeWhile_append_dropWhile]
        · simpa using List.mem_takeWhile_imp hmem
  · rintro ⟨a, b, rfl, ha, hb⟩
    have hne : ∀ c ∈ a, decide (c ≠ slash) = true := fun c hc => by
      simpa using ne_of_mem_of_not_mem hc ha
    have hdrop : (a ++ slash :: b).dropWhile (· ≠ slash) = slash :: b := by
      rw [List.dropWhile_append_of_pos hne, List.dropWhile_cons_of_neg (by simp)]
    rw [List.cons_append, matchesAt, hdrop]
    simpa using hb

theorem count_of_matchesAt {t : GoString} (h : matchesAt t = true) : t.count slash = 2 := by
  obtain ⟨a, b, rfl, ha, hb⟩ := matchesAt_iff.1 h
  simp [List.count_eq_zero_of_not_mem ha, List.count_eq_zero_of_not_mem hb]

/-- **Two matches in a text are one.** -/
theorem eq_of_matchesAt {s t u : GoString} (ht : t <:+ s) (hu : u <:+ s) (hmt : matchesAt t = true)
    (hmu : matchesAt u = true) : t = u := by
  wlog hle : t.length ≤ u.length generalizing t u
  · exact (this hu ht hmu hmt (by omega)).symm
  obtain ⟨r, hr⟩ := List.suffix_of_suffix_length_le ht hu hle
  have hcount : r.count slash = 0 := by
    have h := count_of_matchesAt hmu
    rw [← hr, List.count_append, count_of_matchesAt hmt] at h
    omega
  cases r with
  | nil => simpa using hr
  | cons c r =>
    obtain ⟨a, b, hab, -⟩ := matchesAt_iff.1 hmu
    rw [hab] at hr
    obtain rfl : c = slash := by simpa using congrArg List.head? hr
    simp at hcount

theorem findEndpoint_eq {s t : GoString} (ht : t <:+ s) (hm : matchesAt t = true) :
    findEndpoint s = t := by
  rw [findEndpoint]
  rcases h : s.tails.find? matchesAt with _ | u
  · exact absurd hm (by simpa using List.find?_eq_none.1 h t ((List.mem_tails ..).2 ht))
  · have hu := (List.mem_tails ..).1 (List.mem_of_find?_eq_some h)
    exact eq_of_matchesAt hu ht (List.find?_some h) hm

theorem findEndpoint_eq_nil {s : GoString} (h : s.count slash < 2) : findEndpoint s = [] := by
  have hnone : s.tails.find? matchesAt = none := by
    rw [List.find?_eq_none]
    intro t ht hm
    have hle := ((List.mem_tails ..).1 ht).sublist.count_le slash
    rw [count_of_matchesAt hm] at hle
    omega
  rw [findEndpoint, hnone]
  rfl

/-! ## The endpoint of a path -/

/-- A text with an occurrence of `x` has a last one. -/
theorem exists_last {α : Type*} [DecidableEq α] {x : α} {s : List α} (h : x ∈ s) :
    ∃ q b, s = q ++ x :: b ∧ x ∉ b := by
  obtain ⟨b, q, hs, hb⟩ := List.eq_append_cons_of_mem (List.mem_reverse.2 h)
  refine ⟨q.reverse, b.reverse, ?_, by simpa using hb⟩
  rw [← List.reverse_reverse s, hs]
  simp

/-- A text with two slashes ends in a match. -/
theorem exists_match {s : GoString} (h : 2 ≤ s.count slash) :
    ∃ q a b, s = q ++ (slash :: a ++ slash :: b) ∧ slash ∉ a ∧ slash ∉ b := by
  obtain ⟨r, b, rfl, hb⟩ := exists_last (List.count_pos_iff.1 (by omega : 0 < s.count slash))
  have hr : 0 < r.count slash := by
    rw [List.count_append, List.count_cons_self, List.count_eq_zero_of_not_mem hb] at h
    omega
  obtain ⟨q, a, rfl, ha⟩ := exists_last (List.count_pos_iff.1 hr)
  exact ⟨q, a, b, by simp, ha, hb⟩

theorem trimSlashes_eq_self {s : GoString} {c : UInt8} (hc : c ≠ slash) :
    trimSlashes (s ++ [c]) = s ++ [c] := by
  rw [trimSlashes, List.rdropWhile_concat_neg _ _ _ (by simpa using hc)]

/-- A match that does not end in a slash has no slash to trim. -/
theorem trimSlashes_append {q b : GoString} (hne : b ≠ []) (hb : slash ∉ b) :
    trimSlashes (q ++ b) = q ++ b := by
  obtain ⟨b, c, rfl⟩ : ∃ b' c, b = b' ++ [c] := by
    rcases List.eq_nil_or_concat b with rfl | ⟨b', c, rfl⟩
    · exact absurd rfl hne
    · exact ⟨b', c, by simp⟩
  rw [← List.append_assoc]
  exact trimSlashes_eq_self fun hc => hb (by simp [hc])

theorem trimSlashes_replicate (s : GoString) (n : ℕ) :
    trimSlashes (s ++ List.replicate n slash) = trimSlashes s := by
  induction n with
  | zero => simp
  | succ n ih =>
    rw [List.replicate_succ', ← List.append_assoc, trimSlashes,
      List.rdropWhile_concat_pos _ _ _ (by simp)]
    exact ih

/-- **A path with two segments**, apart from its trailing slashes: the endpoint is the last two. -/
theorem getGRPCEndpoint_of_suffix {p q a b : GoString}
    (hp : trimSlashes p = q ++ (slash :: a ++ slash :: b)) (ha : slash ∉ a) (hb : slash ∉ b) :
    getGRPCEndpoint p = slash :: a ++ slash :: b := by
  have hfind : findEndpoint (trimSlashes p) = slash :: a ++ slash :: b := by
    rw [hp]
    exact findEndpoint_eq (List.suffix_append ..) (matchesAt_iff.2 ⟨a, b, rfl, ha, hb⟩)
  rw [getGRPCEndpoint, hfind]
  rfl

theorem getGRPCEndpoint_of_few_slashes {p : GoString} (h : (trimSlashes p).count slash < 2) :
    getGRPCEndpoint p = p := by
  rw [getGRPCEndpoint, findEndpoint_eq_nil h]
  rfl

theorem getGRPCEndpoint_of_two_slashes {p : GoString} (h : 2 ≤ (trimSlashes p).count slash) :
    ∃ q a b, trimSlashes p = q ++ (slash :: a ++ slash :: b) ∧ slash ∉ a ∧ slash ∉ b ∧
      getGRPCEndpoint p = slash :: a ++ slash :: b := by
  obtain ⟨q, a, b, hp, ha, hb⟩ := exists_match h
  exact ⟨q, a, b, hp, ha, hb, getGRPCEndpoint_of_suffix hp ha hb⟩

/-- No slash is left at the end. -/
theorem trimSlashes_ne_concat (p q : GoString) : trimSlashes p ≠ q ++ [slash] := by
  intro h
  have hidem : trimSlashes (trimSlashes p) = trimSlashes p := List.rdropWhile_idempotent _ _
  rw [h, trimSlashes, List.rdropWhile_concat_pos _ _ _ (by simp)] at hidem
  have hle := (List.rdropWhile_prefix (· == slash) q).length_le
  rw [hidem, List.length_append, List.length_singleton] at hle
  omega

/-- **The endpoint of an endpoint is itself.** -/
theorem getGRPCEndpoint_idempotent (p : GoString) :
    getGRPCEndpoint (getGRPCEndpoint p) = getGRPCEndpoint p := by
  rcases Nat.lt_or_ge ((trimSlashes p).count slash) 2 with h | h
  · rw [getGRPCEndpoint_of_few_slashes h, getGRPCEndpoint_of_few_slashes h]
  · obtain ⟨q, a, b, hp, ha, hb, hend⟩ := getGRPCEndpoint_of_two_slashes h
    have hne : b ≠ [] := by
      rintro rfl
      exact trimSlashes_ne_concat p (q ++ slash :: a) (by simp [hp])
    rw [hend]
    refine getGRPCEndpoint_of_suffix (q := []) ?_ ha hb
    rw [List.nil_append, List.append_cons]
    exact trimSlashes_append hne hb

/-- **Any path below which the server is mounted** is cut off, and so are trailing slashes. -/
theorem getGRPCEndpoint_mounted (q : GoString) {service method : GoString} (hm : method ≠ [])
    (hs : slash ∉ service) (hms : slash ∉ method) (n : ℕ) :
    getGRPCEndpoint (q ++ (slash :: service ++ slash :: method) ++ List.replicate n slash) =
      slash :: service ++ slash :: method := by
  refine getGRPCEndpoint_of_suffix (q := q) ?_ hs hms
  rw [trimSlashes_replicate, List.append_cons, ← List.append_assoc]
  exact trimSlashes_append hm hms

end GrpcWeb.Server
