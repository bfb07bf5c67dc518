import Mathlib.Data.List.Basic
import SparqlViews.View.Path

/-! # Lists of names and their variables

Doubled underscores are read off in pairs from the left, whatever follows them, so the parity of a
run of underscores never matters (`decodeChars_double_append`). What matters is a joint: it is one
underscore in front of a letter, because the next name begins with one. So reading undoes writing on
lists of legal names (`decode_encode`), while writing undoes reading on all texts (`encode_decode`).

* `head?_encode`: the variable of legal names begins with a letter, so that it is no variable that
  queries use for themselves.
* `Path.ofVariable_toVariable`: the variable of a path is read back as the path.
* `encoding_round_trips`: all of it together.
-/

namespace SparqlViews.Naming

/-- Every name of the list is a short name. -/
def Legal (names : List String) : Prop := ∀ name ∈ names, isShortName name = true

instance (names : List String) : Decidable (Legal names) :=
  inferInstanceAs (Decidable (∀ name ∈ names, isShortName name = true))

/-! ### Reading -/

theorem decodeChars_joint {rest : List Char} (h : rest.head? ≠ some '_') :
    decodeChars ('_' :: rest) = [] :: decodeChars rest := by
  rw [decodeChars]
  rintro c rfl
  exact h rfl

theorem decodeChars_cons {c : Char} (h : c ≠ '_') (rest : List Char) :
    decodeChars (c :: rest) = pushFront c (decodeChars rest) := by
  rw [decodeChars]
  · rintro _ rfl; exact absurd rfl h
  · rintro rfl; exact absurd rfl h

theorem decodeChars_ne_nil (v : List Char) : decodeChars v ≠ [] := by
  have hpush : ∀ (c : Char) (names : List (List Char)), pushFront c names ≠ [] := by
    intro c names
    cases names <;> simp [pushFront]
  fun_cases decodeChars v
  · simp
  · exact hpush _ _
  · simp
  · exact hpush _ _

theorem foldr_pushFront (name : List Char) (names : List (List Char)) :
    name.foldr pushFront ([] :: names) = name :: names := by
  induction name with
  | nil => rfl
  | cons c name ih => rw [List.foldr_cons, ih]; rfl

/-- **A doubled name is read back**, whatever follows it. -/
theorem decodeChars_double_append (name rest : List Char) :
    decodeChars (double name ++ rest) = name.foldr pushFront (decodeChars rest) := by
  induction name with
  | nil => rfl
  | cons c name ih =>
    rw [List.foldr_cons, ← ih]
    by_cases hc : c = '_'
    · subst hc; rfl
    · have : double (c :: name) = c :: double name := by simp [double, hc]
      rw [this, List.cons_append, decodeChars_cons hc]

/-! ### Names that begin with a letter -/

theorem isAlpha_underscore : '_'.isAlpha = false := by decide

theorem toList_of_isShortName {name : String} (h : isShortName name = true) :
    ∃ c rest, name.toList = c :: rest ∧ c ≠ '_' := by
  unfold isShortName at h
  cases hn : name.toList with
  | nil => simp [hn] at h
  | cons c rest =>
    refine ⟨c, rest, rfl, ?_⟩
    rintro rfl
    simp [hn, isAlpha_underscore] at h

theorem head?_double {c : Char} (h : c ≠ '_') (rest : List Char) :
    (double (c :: rest)).head? = some c := by
  simp [double, h]

theorem head?_encodeChars {names : List String} (hne : names ≠ []) (h : Legal names) :
    ∃ c, (encodeChars (names.map String.toList)).head? = some c ∧ c ≠ '_' := by
  obtain ⟨name, names, rfl⟩ := List.exists_cons_of_ne_nil hne
  obtain ⟨c, rest, hname, hc⟩ := toList_of_isShortName (h name List.mem_cons_self)
  refine ⟨c, ?_, hc⟩
  cases names with
  | nil => simp [encodeChars, hname, head?_double hc]
  | cons next names => simp [encodeChars, hname, head?_double hc]

theorem decodeChars_encodeChars : ∀ {names : List String}, names ≠ [] → Legal names →
    decodeChars (encodeChars (names.map String.toList)) = names.map String.toList
  | [], hne, _ => absurd rfl hne
  | [name], _, _ => by
    have h := decodeChars_double_append name.toList []
    rw [List.append_nil] at h
    simp only [List.map_cons, List.map_nil, encodeChars]
    rw [h]
    exact foldr_pushFront _ _
  | name :: next :: names, _, h => by
    have htail : Legal (next :: names) := fun n hn => h n (List.mem_cons_of_mem _ hn)
    have ih := decodeChars_encodeChars (List.cons_ne_nil next names) htail
    obtain ⟨c, hhead, hc⟩ := head?_encodeChars (List.cons_ne_nil next names) htail
    have hjoint : (encodeChars ((next :: names).map String.toList)).head? ≠ some '_' := by
      rw [hhead]
      exact fun he => hc (Option.some.inj he)
    rw [List.map_cons, List.map_cons, encodeChars, ← List.map_cons, decodeChars_double_append,
      decodeChars_joint hjoint, foldr_pushFront, ih]
    exact List.cons_ne_nil _ _

theorem isNameChar_of_mem {name : String} (h : isShortName name = true) :
    ∀ c ∈ name.toList, isNameChar c = true := by
  unfold isShortName at h
  intro c hc
  cases hname : name.toList with
  | nil =>
    rw [hname] at hc
    cases hc
  | cons d rest =>
    rw [hname] at h hc
    rw [Bool.and_eq_true, List.all_eq_true] at h
    rcases List.mem_cons.1 hc with rfl | hc
    · simp [isNameChar, Char.isAlphanum, h.1]
    · exact h.2 c hc

theorem mem_of_mem_double {c : Char} {name : List Char} (h : c ∈ double name) : c ∈ name := by
  obtain ⟨d, hd, hc⟩ := List.mem_flatMap.1 h
  split at hc
  · rename_i hunder
    simp only [List.mem_cons, List.not_mem_nil, or_false, or_self] at hc
    rwa [hc, ← hunder]
  · rwa [List.mem_singleton.1 hc]

/-- **The variable of legal names is made of their characters** and underscores. -/
theorem isNameChar_of_mem_encodeChars : ∀ {names : List String}, Legal names →
    ∀ c ∈ encodeChars (names.map String.toList), isNameChar c = true
  | [], _, c, hc => nomatch hc
  | [name], h, c, hc => isNameChar_of_mem (h name List.mem_cons_self) c (mem_of_mem_double hc)
  | name :: next :: names, h, c, hc => by
    rw [List.map_cons, List.map_cons, encodeChars, List.mem_append, List.mem_cons] at hc
    rcases hc with hc | rfl | hc
    · exact isNameChar_of_mem (h name List.mem_cons_self) c (mem_of_mem_double hc)
    · rfl
    · exact isNameChar_of_mem_encodeChars (fun n hn => h n (List.mem_cons_of_mem _ hn)) c hc
    · exact List.cons_ne_nil _ _

/-- **Reading undoes writing** on legal names. -/
theorem decode_encode {names : List String} (hne : names ≠ []) (h : Legal names) :
    decode (encode names) = names := by
  rw [decode, encode, String.toList_ofList, decodeChars_encodeChars hne h, List.map_map]
  simp [Function.comp_def]

/-! ### Writing what was read -/

theorem encodeChars_pushFront (c : Char) (names : List (List Char)) :
    encodeChars (pushFront c names) = (if c = '_' then ['_', '_'] else [c]) ++ encodeChars names := by
  rcases names with _ | ⟨name, _ | ⟨next, names⟩⟩
  · simp [pushFront, encodeChars, double]
  · simp [pushFront, encodeChars, double]
  · simp [pushFront, encodeChars, double]

theorem encodeChars_nil_cons {names : List (List Char)} (h : names ≠ []) :
    encodeChars ([] :: names) = '_' :: encodeChars names := by
  obtain ⟨name, names, rfl⟩ := List.exists_cons_of_ne_nil h
  simp [encodeChars, double]

theorem encodeChars_decodeChars (v : List Char) : encodeChars (decodeChars v) = v := by
  fun_induction decodeChars v with
  | case1 => rfl
  | case2 rest ih => rw [encodeChars_pushFront, ih]; rfl
  | case3 rest hrest ih => rw [encodeChars_nil_cons (decodeChars_ne_nil rest), ih]
  | case4 c rest hdouble hjoint ih =>
    have hc : c ≠ '_' := by
      rintro rfl
      exact hjoint rfl
    rw [encodeChars_pushFront, ih, if_neg hc, List.singleton_append]

/-- **Writing undoes reading** on all texts. -/
theorem encode_decode (v : String) : encode (decode v) = v := by
  rw [encode, decode, List.map_map]
  have : String.toList ∘ String.ofList = id := by
    funext l
    simp
  rw [this, List.map_id, encodeChars_decodeChars, String.ofList_toList]

/-! ### Consequences -/

theorem head?_encode {names : List String} (hne : names ≠ []) (h : Legal names) :
    ∃ c, (encode names).toList.head? = some c ∧ c ≠ '_' := by
  rw [encode, String.toList_ofList]
  exact head?_encodeChars hne h

theorem encode_ne_empty {names : List String} (hne : names ≠ []) (h : Legal names) :
    encode names ≠ "" := by
  intro he
  obtain ⟨c, hc, -⟩ := head?_encode hne h
  rw [he] at hc
  simp at hc

theorem encode_injective {s t : List String} (hs : Legal s) (ht : Legal t)
    (h : encode s = encode t) : s = t := by
  rcases eq_or_ne s [] with rfl | hs'
  · rcases eq_or_ne t [] with rfl | ht'
    · rfl
    · exact absurd h.symm (encode_ne_empty ht' ht)
  · rcases eq_or_ne t [] with rfl | ht'
    · exact absurd h (encode_ne_empty hs' hs)
    · rw [← decode_encode hs' hs, h, decode_encode ht' ht]

theorem isInternal_iff {v : String} : isInternal v = true ↔ v.toList.head? = some '_' := by
  rw [isInternal, beq_iff_eq]

@[simp] theorem isInternal_sortVariable (i : Nat) : isInternal (sortVariable i) = true := by
  rw [isInternal_iff, sortVariable, String.toList_append]
  rfl

theorem isInternal_encode {names : List String} (hne : names ≠ []) (h : Legal names) :
    isInternal (encode names) = false := by
  obtain ⟨c, hhead, hc⟩ := head?_encode hne h
  rw [Bool.eq_false_iff, ne_eq, isInternal_iff, hhead]
  exact fun he => hc (Option.some.inj he)

theorem isShortName_cons_underscore (rest : List Char) :
    isShortName (String.ofList ('_' :: rest)) = false := by
  simp [isShortName, isAlpha_underscore]

/-- A variable with a leading underscore is not made of legal names: its first name is empty or
begins with the underscore. -/
theorem exists_illegal {v : String} (h : v.toList.head? = some '_') :
    ∃ name ∈ decode v, isShortName name = false := by
  obtain ⟨rest, hv⟩ : ∃ rest, v.toList = '_' :: rest := by
    cases hl : v.toList with
    | nil => simp [hl] at h
    | cons c rest => exact ⟨rest, by simpa [hl] using h⟩
  rw [decode, hv]
  by_cases hj : rest.head? = some '_'
  · obtain ⟨rest, rfl⟩ : ∃ more, rest = '_' :: more := by
      cases rest with
      | nil => simp at hj
      | cons c more => exact ⟨more, by simpa using hj⟩
    obtain ⟨name, names, hd⟩ := List.exists_cons_of_ne_nil (decodeChars_ne_nil rest)
    refine ⟨String.ofList ('_' :: name), ?_, isShortName_cons_underscore name⟩
    rw [decodeChars, hd]
    exact List.mem_cons_self
  · refine ⟨String.ofList [], ?_, by simp [isShortName]⟩
    rw [decodeChars_joint hj]
    exact List.mem_cons_self

end Naming

namespace Path

open Naming

theorem toVariable_of_ne_nil {root : String} {p : Path} (h : p ≠ []) :
    toVariable root p = encode p := by
  simp [toVariable, h]

theorem isNameChar_of_mem_toVariable {root : String} {p : Path} (hp : p ≠ []) (h : Legal p) :
    ∀ c ∈ (toVariable root p).toList, isNameChar c = true := by
  rw [toVariable_of_ne_nil hp, encode, String.toList_ofList]
  exact isNameChar_of_mem_encodeChars h

/-- **The variable of a path is read back as the path.** -/
theorem ofVariable_toVariable {root : String} {p : Path} (hp : Legal p)
    (hroot : p = [] ∨ root ≠ encode p) : ofVariable root (toVariable root p) = p := by
  rcases eq_or_ne p [] with rfl | hne
  · simp [ofVariable, toVariable]
  · have hne' : encode p ≠ root := (hroot.resolve_left hne).symm
    rw [toVariable_of_ne_nil hne, ofVariable, if_neg hne', decode_encode hne hp]

end Path

namespace Naming

/-- **Lists of names and variables are two forms of one thing**, as far as names are legal; paths
are the same with a variable of its own for the root. -/
theorem encoding_round_trips :
    (∀ names : List String, names ≠ [] → Legal names → decode (encode names) = names) ∧
    (∀ v : String, encode (decode v) = v) ∧
    (∀ s t : List String, Legal s → Legal t → encode s = encode t → s = t) ∧
    (∀ names : List String, names ≠ [] → Legal names →
      (encode names).toList.head? ≠ some '_' ∧ isInternal (encode names) = false ∧
        ∀ i, encode names ≠ sortVariable i) ∧
    (∀ v : String, v.toList.head? = some '_' → ∃ name ∈ decode v, isShortName name = false) ∧
    ∀ (root : String) (p : Path), Legal p → p = [] ∨ root ≠ encode p →
      Path.ofVariable root (Path.toVariable root p) = p := by
  refine ⟨fun _ hne h => decode_encode hne h, encode_decode, fun _ _ => encode_injective,
    fun names hne h => ?_, fun _ => exists_illegal, fun _ _ => Path.ofVariable_toVariable⟩
  have hint := isInternal_encode hne h
  refine ⟨fun hhead => ?_, hint, fun i he => ?_⟩
  · rw [isInternal_iff.2 hhead] at hint
    exact absurd hint (by decide)
  · rw [he, isInternal_sortVariable] at hint
    exact absurd hint (by decide)

/-- The names `a_` and `b`: the underscores of the first one touch the joint. -/
theorem encoding_round_trips_at_joint :
    decode (encode ["a_", "b"]) = ["a_", "b"] ∧
      Path.ofVariable "id" (Path.toVariable "id" ["a_", "b"]) = ["a_", "b"] := by
  have h : Legal ["a_", "b"] := by decide
  obtain ⟨hread, -, -, -, -, hpath⟩ := encoding_round_trips
  exact ⟨hread ["a_", "b"] (by decide) h, hpath "id" ["a_", "b"] h (.inr (by decide))⟩

end Naming

end SparqlViews
