import Mathlib.Data.List.TakeWhile
import Mathlib.Tactic.Common
import McritSimilarity.Python.Url

/-!
# Joining URLs

`urllib.parse.urljoin` for a base with the scheme `http` or `https`, and the way back from the parts of
a URL to its text.
-/

set_option autoImplicit false

namespace Python

/-- The parts of a URL behind its network location. -/
structure UrlPath where
  path : List Char
  params : List Char
  query : List Char
  fragment : List Char
  deriving DecidableEq, Repr

/-- `_splitparams`: the parameters of the last segment of a path. -/
def splitParams (url : List Char) : List Char × List Char :=
  let (before, slash, last) := rpartition '/' url
  let (segment, _, params) := partition ';' last
  (before ++ (if slash then ['/'] else []) ++ segment, params)

/-- What `urlparse` splits the text behind the network location into. -/
def urlPath (rest : List Char) : UrlPath :=
  let (rest, _, fragment) := partition '#' rest
  let (rest, _, query) := partition '?' rest
  let (path, params) := splitParams rest
  ⟨path, params, query, fragment⟩

/-- `urlunparse` of parts with a network location. -/
def unparse (scheme netloc : List Char) (p : UrlPath) : List Char :=
  let url := if p.params = [] then p.path else p.path ++ ';' :: p.params
  let url := if url ≠ [] ∧ url.head? ≠ some '/' then '/' :: url else url
  let url := scheme ++ ':' :: '/' :: '/' :: netloc ++ url
  let url := if p.query = [] then url else url ++ '?' :: p.query
  if p.fragment = [] then url else url ++ '#' :: p.fragment

/-- `segments[1:-1] = filter(None, segments[1:-1])`. -/
def dropEmptyInner : List (List Char) → List (List Char)
  | first :: second :: rest =>
    first :: ((second :: rest).dropLast.filter (· ≠ [])) ++ [(second :: rest).getLastD []]
  | segments => segments

/-- The segments with `.` and `..` resolved. -/
def resolveDots (segments : List (List Char)) : List (List Char) :=
  segments.foldl (fun resolved segment =>
    if segment = "..".toList then resolved.dropLast
    else if segment = ".".toList then resolved
    else resolved ++ [segment]) []

/-- The path of a reference next to the path of its base. -/
def joinPaths (base path : List Char) : List Char :=
  let parts := split '/' base
  let parts := if parts.getLastD [] = [] then parts else parts.dropLast
  let segments := if path.head? = some '/' then split '/' path
    else dropEmptyInner (parts ++ split '/' path)
  let last := segments.getLastD []
  let resolved := resolveDots segments
  let resolved := if last = ".".toList ∨ last = "..".toList then resolved ++ [[]] else resolved
  let joined := List.intercalate ['/'] resolved
  if joined = [] then ['/'] else joined

/-- `urljoin(base, url)`; `none` is where parsing raises `ValueError`. -/
def urljoin (base url : String) : Option String :=
  if base = "" then some url
  else if url = "" then some base
  else
    match urlparse base, urlparse url with
    | some b, some u =>
      let basePath := urlPath b.rest
      let part := urlPath u.rest
      if u.scheme ≠ [] ∧ u.scheme ≠ b.scheme then some url
      else if u.netloc ≠ [] then some (String.ofList (unparse b.scheme u.netloc part))
      else if part.path = [] ∧ part.params = [] then
        some (String.ofList (unparse b.scheme b.netloc { part with
          path := basePath.path
          params := basePath.params
          query := if part.query = [] then basePath.query else part.query }))
      else some (String.ofList (unparse b.scheme b.netloc
        { part with path := joinPaths basePath.path part.path }))
    | _, _ => none

example : urljoin "https://host/api/" "jobs/../a;b?c" = some "https://host/api/a;b?c" := by decide

example : urljoin "https://host/api/" "//other/x" = some "https://other/x" := by decide

/-! ## Network locations -/

/-- A delimiter behind a network location. -/
def endsNetloc (c : Char) : Bool := c = '/' || c = '?' || c = '#'

/-- A character that parsing removes. -/
def isRemoved (c : Char) : Bool := c = '\t' || c = '\r' || c = '\n'

/-- A URL without the characters that parsing skips. -/
def cleaned (url : List Char) : List Char :=
  (url.dropWhile fun c => decide (c.toNat ≤ 32)).filter fun c => c ≠ '\t' && c ≠ '\r' && c ≠ '\n'

/-- What becomes of the text behind `//`. -/
def parseNetloc (scheme rest : List Char) : Option ParseResult :=
  let netloc := rest.takeWhile fun c => c ≠ '/' && c ≠ '?' && c ≠ '#'
  let opened := netloc.contains '['
  let closed := netloc.contains ']'
  if opened != closed then none
  else if opened && closed && !checkBracketedNetloc netloc then none
  else if netloc.any hidesDelimiter then none
  else some ⟨scheme, netloc, rest.drop netloc.length⟩

theorem urlparse_of_network {url : String} {scheme rest : List Char}
    (h : splitScheme (cleaned url.toList) = (scheme, '/' :: '/' :: rest)) :
    urlparse url = parseNetloc scheme rest := by
  unfold cleaned at h
  simp only [urlparse, h]
  rfl

theorem urlparse_of_path {url : String} {scheme path : List Char}
    (h : splitScheme (cleaned url.toList) = (scheme, path)) (hpath : ∀ rest, path ≠ '/' :: '/' :: rest) :
    urlparse url = some ⟨scheme, [], path⟩ := by
  unfold cleaned at h
  simp only [urlparse, h]

/-- A text that parsing takes as a network location. -/
structure IsNetloc (netloc : List Char) : Prop where
  chars : ∀ c ∈ netloc, endsNetloc c = false ∧ isRemoved c = false
  balanced : netloc.contains '[' = netloc.contains ']'
  bracketed : netloc.contains '[' = true → checkBracketedNetloc netloc = true
  plain : netloc.any hidesDelimiter = false

theorem isNetloc_nil : IsNetloc [] := ⟨nofun, rfl, nofun, rfl⟩

theorem mem_of_mem_partition {sep c : Char} {cs : List Char} (h : c ∈ (partition sep cs).2.2) : c ∈ cs := by
  induction cs with
  | nil => exact h
  | cons d cs ih =>
    rw [partition] at h
    split_ifs at h with hd
    · exact List.mem_cons_of_mem _ h
    · exact List.mem_cons_of_mem _ (ih h)

theorem mem_of_mem_splitScheme {url : List Char} {c : Char} (h : c ∈ (splitScheme url).2) : c ∈ url := by
  unfold splitScheme at h
  split at h
  next before found after heq =>
    have hafter : c ∈ after → c ∈ url := fun hc => mem_of_mem_partition (by rw [heq]; exact hc)
    split at h
    · split_ifs at h
      · exact hafter h
      · exact h
    · exact h

theorem isRemoved_of_mem_cleaned {url : List Char} {c : Char} (h : c ∈ cleaned url) : isRemoved c = false := by
  have hkept := (List.mem_filter.1 h).2
  simpa [isRemoved, and_assoc] using hkept

theorem parseNetloc_isNetloc {scheme rest : List Char} {p : ParseResult}
    (hrest : ∀ c ∈ rest, isRemoved c = false) (h : parseNetloc scheme rest = some p) : IsNetloc p.netloc := by
  unfold parseNetloc at h
  generalize hnetloc : (rest.takeWhile fun c => c ≠ '/' && c ≠ '?' && c ≠ '#') = netloc at h
  dsimp only at h
  split_ifs at h with hbalanced hbracketed hplain
  cases h
  have heq : netloc.contains '[' = netloc.contains ']' := by simpa using hbalanced
  refine ⟨fun c hc => ⟨?_, hrest c ?_⟩, heq, fun hopen => ?_, by simpa using hplain⟩
  · rw [← hnetloc] at hc
    have hinside := List.mem_takeWhile_imp hc
    simpa [endsNetloc, and_assoc] using hinside
  · rw [← hnetloc] at hc
    exact (List.takeWhile_sublist _).subset hc
  · rw [hopen, ← heq, hopen] at hbracketed
    simpa using hbracketed

theorem urlparse_isNetloc {url : String} {p : ParseResult} (h : urlparse url = some p) : IsNetloc p.netloc := by
  have hkept : ∀ c ∈ (splitScheme (cleaned url.toList)).2, isRemoved c = false :=
    fun c hc => isRemoved_of_mem_cleaned (mem_of_mem_splitScheme hc)
  obtain ⟨scheme, behind, hsplit⟩ : ∃ scheme behind, splitScheme (cleaned url.toList) = (scheme, behind) :=
    ⟨_, _, rfl⟩
  rw [hsplit] at hkept
  by_cases hnetwork : ∃ rest, behind = '/' :: '/' :: rest
  · obtain ⟨rest, rfl⟩ := hnetwork
    rw [urlparse_of_network hsplit] at h
    exact parseNetloc_isNetloc (fun c hc =>
      hkept c (List.mem_cons_of_mem _ (List.mem_cons_of_mem _ hc))) h
  · rw [urlparse_of_path hsplit fun rest heq => hnetwork ⟨rest, heq⟩] at h
    cases h
    exact isNetloc_nil

/-! ## The URL of a relative reference -/

/-- Text behind a network location. -/
def IsTail (tail : List Char) : Prop := ∀ c ∈ tail.head?, endsNetloc c = true

theorem isRemoved_of_endsNetloc {c : Char} (h : endsNetloc c = true) : isRemoved c = false := by
  simp only [endsNetloc, Bool.or_eq_true, decide_eq_true_eq] at h
  rcases h with (rfl | rfl) | rfl <;> decide

/-- The characters that parsing keeps. -/
def kept (cs : List Char) : List Char := cs.filter fun c => c ≠ '\t' && c ≠ '\r' && c ≠ '\n'

theorem kept_eq_self {cs : List Char} (h : ∀ c ∈ cs, isRemoved c = false) : kept cs = cs := by
  refine List.filter_eq_self.2 fun c hc => ?_
  simpa [isRemoved, and_assoc] using h c hc

theorem IsTail.kept {tail : List Char} (h : IsTail tail) : IsTail (kept tail) := by
  cases tail with
  | nil => exact h
  | cons c cs =>
    have hc := h c rfl
    have hkeep := isRemoved_of_endsNetloc hc
    have hcons : Python.kept (c :: cs) = c :: Python.kept cs :=
      List.filter_cons_of_pos (by simpa [isRemoved, and_assoc] using hkeep)
    rw [hcons]
    intro d hd
    cases hd
    exact hc

/-- Parsing finds the network location again. -/
theorem parseNetloc_append {scheme netloc tail : List Char} (hnetloc : IsNetloc netloc) (htail : IsTail tail) :
    parseNetloc scheme (netloc ++ tail) = some ⟨scheme, netloc, tail⟩ := by
  have hinside : ∀ c ∈ netloc, (c ≠ '/' && c ≠ '?' && c ≠ '#') = true := by
    intro c hc
    have hends := (hnetloc.chars c hc).1
    simpa [endsNetloc, and_assoc] using hends
  have htake : (tail.takeWhile fun c => c ≠ '/' && c ≠ '?' && c ≠ '#') = [] := by
    cases tail with
    | nil => rfl
    | cons c cs =>
      have hc := htail c rfl
      refine List.takeWhile_cons_of_neg ?_
      simpa [endsNetloc, or_assoc, imp_iff_not_or] using hc
  have hall : ((netloc ++ tail).takeWhile fun c => c ≠ '/' && c ≠ '?' && c ≠ '#') = netloc := by
    rw [List.takeWhile_append_of_pos hinside, htake, List.append_nil]
  have hbalanced : (netloc.contains '[' != netloc.contains ']') = false := by
    rw [hnetloc.balanced, bne_self_eq_false]
  have hbracketed : (netloc.contains '[' && netloc.contains ']' && !checkBracketedNetloc netloc) = false := by
    cases hopen : netloc.contains '[' with
    | false => rfl
    | true => simp [hnetloc.bracketed hopen]
  unfold parseNetloc
  rw [hall]
  simp only [hbalanced, hbracketed, hnetloc.plain, List.drop_left]
  rfl

/-- The schemes of a server. -/
def isHttpScheme (scheme : List Char) : Prop := scheme = "http".toList ∨ scheme = "https".toList

theorem splitScheme_http {scheme : List Char} (h : isHttpScheme scheme) (rest : List Char) :
    splitScheme (scheme ++ ':' :: rest) = (scheme, rest) := by
  rcases h with rfl | rfl <;> rfl

/-- A URL that is put together from an HTTP scheme and a network location parses into them. -/
theorem urlparse_unparse {scheme netloc tail : List Char} (hscheme : isHttpScheme scheme)
    (hnetloc : IsNetloc netloc) (htail : IsTail tail) :
    urlparse (String.ofList (scheme ++ ':' :: '/' :: '/' :: (netloc ++ tail))) =
      some ⟨scheme, netloc, kept tail⟩ := by
  have hnet : kept netloc = netloc := kept_eq_self fun c hc => (hnetloc.chars c hc).2
  have hclean : cleaned (scheme ++ ':' :: '/' :: '/' :: (netloc ++ tail)) =
      scheme ++ ':' :: '/' :: '/' :: (netloc ++ kept tail) := by
    have hkept : kept (netloc ++ tail) = netloc ++ kept tail := by
      rw [kept, List.filter_append]
      exact congrArg (· ++ kept tail) hnet
    rcases hscheme with rfl | rfl
    · exact congrArg ("http://".toList ++ ·) hkept
    · exact congrArg ("https://".toList ++ ·) hkept
  have hsplit : splitScheme (cleaned (String.ofList
      (scheme ++ ':' :: '/' :: '/' :: (netloc ++ tail))).toList) = (scheme, '/' :: '/' :: (netloc ++ kept tail)) := by
    rw [String.toList_ofList, hclean, splitScheme_http hscheme]
  rw [urlparse_of_network hsplit]
  exact parseNetloc_append hnetloc htail.kept

/-- The text of some parts is their scheme, their network location and a tail. -/
theorem unparse_eq (scheme netloc : List Char) (p : UrlPath) :
    ∃ tail, IsTail tail ∧ unparse scheme netloc p = scheme ++ ':' :: '/' :: '/' :: (netloc ++ tail) := by
  unfold unparse
  dsimp only
  generalize (if p.params = [] then p.path else p.path ++ ';' :: p.params) = path
  have hpath : IsTail (if path ≠ [] ∧ path.head? ≠ some '/' then '/' :: path else path) := by
    intro c hc
    split_ifs at hc with hfirst
    · cases hc
      rfl
    · rcases not_and_or.1 hfirst with hnil | hslash
      · rw [not_not.1 hnil] at hc
        cases hc
      · rw [not_not.1 hslash] at hc
        cases hc
        rfl
  revert hpath
  generalize (if path ≠ [] ∧ path.head? ≠ some '/' then '/' :: path else path) = tail
  intro htail
  have happend : ∀ (tail more : List Char), IsTail tail → IsTail more → IsTail (tail ++ more) := by
    intro tail more htail hmore
    cases tail with
    | nil => exact hmore
    | cons c cs => exact htail
  have hquery : IsTail ('?' :: p.query) := fun c hc => by cases hc; rfl
  have hfragment : IsTail ('#' :: p.fragment) := fun c hc => by cases hc; rfl
  refine ⟨(tail ++ if p.query = [] then [] else '?' :: p.query) ++
    if p.fragment = [] then [] else '#' :: p.fragment, ?_, ?_⟩
  · refine happend _ _ (happend _ _ htail ?_) ?_
    · split_ifs
      · exact nofun
      · exact hquery
    · split_ifs
      · exact nofun
      · exact hfragment
  · split_ifs <;> simp

/-- A reference whose first segment can be neither a scheme nor a network location. -/
def IsRelative (ref : List Char) : Prop :=
  ∃ name rest, ref = name ++ rest ∧ name ≠ [] ∧ (∀ c ∈ name, c.isAlpha = true) ∧ ∀ c ∈ rest.head?, c = '/'

theorem partition_snd_fst {sep : Char} {cs : List Char} (h : (partition sep cs).2.1 = true) : sep ∈ cs := by
  induction cs with
  | nil => cases h
  | cons c cs ih =>
    rw [partition] at h
    split_ifs at h with hc
    · exact hc ▸ List.mem_cons_self ..
    · exact List.mem_cons_of_mem _ (ih h)

theorem mem_partition_fst {sep c : Char} {name : List Char} (hname : sep ∉ name) (hsep : c ≠ sep)
    (rest : List Char) :
    c ∈ (partition sep (name ++ c :: rest)).1 := by
  induction name with
  | nil => simp [partition, hsep]
  | cons d name ih =>
    have hd : d ≠ sep := fun heq => hname (heq ▸ List.mem_cons_self ..)
    rw [List.cons_append, partition, if_neg hd]
    exact List.mem_cons_of_mem _ (ih fun hmem => hname (List.mem_cons_of_mem _ hmem))

theorem lt_toNat_of_isAlpha {c : Char} (h : c.isAlpha = true) : 64 < c.toNat := by
  rcases Bool.or_eq_true_iff.1 h with hupper | hlower
  · have hrange : 'A'.val ≤ c.val ∧ c.val ≤ 'Z'.val := of_decide_eq_true hupper
    exact UInt32.le_iff_toNat_le.1 hrange.1
  · have hlow : 'a'.val ≤ c.val := of_decide_eq_true (Bool.and_eq_true_iff.1 hlower).1
    exact Nat.lt_of_lt_of_le (by decide) (UInt32.le_iff_toNat_le.1 hlow)

/-- What a filter leaves of a relative reference is relative. -/
theorem IsRelative.kept {ref : List Char} (h : IsRelative ref) : IsRelative (kept ref) := by
  obtain ⟨name, rest, rfl, hne, hname, hrest⟩ := h
  have hself : Python.kept name = name := by
    refine kept_eq_self fun c hc => ?_
    have halpha := lt_toNat_of_isAlpha (hname c hc)
    by_contra hremoved
    simp only [isRemoved, Bool.not_eq_false, Bool.or_eq_true, decide_eq_true_eq] at hremoved
    rcases hremoved with (rfl | rfl) | rfl <;> exact absurd halpha (by decide)
  refine ⟨name, Python.kept rest, ?_, hne, hname, ?_⟩
  · rw [Python.kept, List.filter_append]
    exact congrArg (· ++ _) hself
  · cases rest with
    | nil => exact nofun
    | cons c cs =>
      obtain rfl := hrest c rfl
      rw [show Python.kept ('/' :: cs) = '/' :: Python.kept cs from rfl]
      exact fun d hd => (Option.some.inj hd).symm

theorem cleaned_relative {ref : List Char} (h : IsRelative ref) : cleaned ref = kept ref := by
  obtain ⟨name, rest, rfl, hne, hname, -⟩ := h
  obtain ⟨c, cs, rfl⟩ := List.exists_cons_of_ne_nil hne
  have hc : ¬ c.toNat ≤ 32 := by
    have halpha := lt_toNat_of_isAlpha (hname c (List.mem_cons_self ..))
    omega
  rw [cleaned, List.cons_append, List.dropWhile_cons_of_neg (by simpa using hc)]
  rfl

/-- A colon comes after a slash, so there is no scheme. -/
theorem splitScheme_relative {ref : List Char} (h : IsRelative ref) : splitScheme ref = ([], ref) := by
  obtain ⟨name, rest, rfl, hne, hname, hrest⟩ := h
  have hnot : ∀ c : Char, c.toNat ≤ 64 → c ∉ name :=
    fun c hc hmem => absurd (lt_toNat_of_isAlpha (hname c hmem)) (by omega)
  have hscheme : ¬ ((partition ':' (name ++ rest)).2.1 = true ∧
      (partition ':' (name ++ rest)).1.all isSchemeChar = true) := by
    rintro ⟨hfound, hall⟩
    cases rest with
    | nil =>
      rw [List.append_nil] at hfound
      exact hnot ':' (by decide) (partition_snd_fst hfound)
    | cons c cs =>
      obtain rfl := hrest c rfl
      have hmem := mem_partition_fst (hnot ':' (by decide)) (show '/' ≠ ':' by decide) cs
      have hslash := List.all_eq_true.1 hall _ hmem
      revert hslash
      decide
  unfold splitScheme
  generalize partition ':' (name ++ rest) = parts at hscheme
  obtain ⟨before, found, after⟩ := parts
  dsimp only at hscheme ⊢
  split
  · rw [if_neg]
    intro hcond
    simp only [Bool.and_eq_true] at hcond
    exact hscheme ⟨hcond.1.1, hcond.2⟩
  · rfl

theorem urlparse_relative {ref : String} (h : IsRelative ref.toList) :
    urlparse ref = some ⟨[], [], kept ref.toList⟩ := by
  refine urlparse_of_path ?_ fun rest heq => ?_
  · rw [cleaned_relative h, splitScheme_relative h.kept]
  · obtain ⟨name, rest', hkept, hne, hname, -⟩ := h.kept
    obtain ⟨c, cs, rfl⟩ := List.exists_cons_of_ne_nil hne
    rw [hkept, List.cons_append, List.cons.injEq] at heq
    have halpha := hname c (List.mem_cons_self ..)
    rw [heq.1] at halpha
    revert halpha
    decide

/-- A relative reference stays at the scheme and the network location of its base. -/
theorem urljoin_relative {base ref : String} {b : ParseResult} (hb : urlparse base = some b)
    (hscheme : isHttpScheme b.scheme) (href : IsRelative ref.toList) :
    ∃ url u, urljoin base ref = some url ∧ urlparse url = some u ∧ u.scheme = b.scheme ∧ u.netloc = b.netloc := by
  have hbase : base ≠ "" := by
    rintro rfl
    have hempty : urlparse "" = some ⟨[], [], []⟩ := by decide
    rw [hempty, Option.some.injEq] at hb
    subst hb
    rcases hscheme with h | h <;> cases h
  have hne : ref ≠ "" := by
    rintro rfl
    obtain ⟨name, rest, hnil, hname, -⟩ := href
    exact hname (List.append_eq_nil_iff.1 hnil.symm).1
  have hjoin : ∃ part, urljoin base ref = some (String.ofList (unparse b.scheme b.netloc part)) := by
    simp only [urljoin, if_neg hbase, if_neg hne, hb, urlparse_relative href]
    simp only [ne_eq, not_true_eq_false, false_and, if_false]
    split_ifs
    · exact ⟨_, rfl⟩
    · exact ⟨_, rfl⟩
    · exact ⟨_, rfl⟩
  obtain ⟨part, hpart⟩ := hjoin
  obtain ⟨tail, htail, hunparse⟩ := unparse_eq b.scheme b.netloc part
  refine ⟨_, ⟨b.scheme, b.netloc, kept tail⟩, hpart, ?_, rfl, rfl⟩
  rw [hunparse]
  exact urlparse_unparse hscheme (urlparse_isNetloc hb) htail

end Python
