import Mathlib.Data.List.Induction
import Mathlib.Data.List.Nodup
import Stencil.Proofs.Entries
import Stencil.Proofs.Render.Locality

/-!
An include is the included file, rendered on its own.

What a file sees is said without the order in which its context was put together: the last parameter
for a name gives its value, read in the context of the include, and a name without a parameter keeps
the value it has there (`Overlaid`). Two contexts of which this holds cannot be told apart by the
file (`loader_congr`), so neither the order of parameters for different names nor that of the
context shows in what is rendered (`include_eq_file`).
-/

namespace Stencil

/-! ## Parameters -/

/-- The name and the raw text that a word of an include gives a value with. -/
def param? (word : List Char) : Option (String × List Char) :=
  match splitOnce '=' word with
  | some (name, raw) => if isName name && !raw.isEmpty then some (String.ofList name, raw) else none
  | none => none

theorem overlayParam_eq (c laid : Context) (word : List Char) :
    overlayParam c laid word = match param? word with
      | some (n, raw) => laid.set n (attributeValue raw c)
      | none => laid := by
  unfold overlayParam param?
  cases splitOnce '=' word with
  | none => rfl
  | some assigned =>
    dsimp only
    split <;> rfl

/-- The raw texts by name, the last one first. -/
def lastParams (params : List (List Char)) : Entries (List Char) :=
  (params.filterMap param?).reverse

theorem lastParams_concat (params : List (List Char)) (word : List Char) :
    lastParams (params ++ [word]) = match param? word with
      | some given => given :: lastParams params
      | none => lastParams params := by
  rw [lastParams, List.filterMap_append, List.reverse_append]
  cases hword : param? word <;> simp [hword, lastParams]

/-- What is `c` with the parameters laid over it, in whatever order its entries are. -/
def Overlaid (c : Context) (params : List (List Char)) (d : Context) : Prop :=
  ∀ n, d.get? n = match (lastParams params).get? n with
    | some raw => some (attributeValue raw c)
    | none => c.get? n

theorem overlaid_overlay (c : Context) (params : List (List Char)) :
    Overlaid c params (overlay c params) := by
  intro n
  rw [overlay]
  induction params using List.reverseRecOn with
  | nil => rfl
  | append_singleton params word ih =>
    rw [List.foldl_append, List.foldl_cons, List.foldl_nil, overlayParam_eq, lastParams_concat]
    cases param? word with
    | none => exact ih
    | some given =>
      obtain ⟨m, raw⟩ := given
      simp only [Entries.get?_cons, Context.get?_set]
      split
      · rfl
      · exact ih

theorem Overlaid.get?_eq {c d d' : Context} {params : List (List Char)} (h : Overlaid c params d)
    (h' : Overlaid c params d') (n : String) : d.get? n = d'.get? n := by
  rw [h n, h' n]

/-- The order of parameters for different names plays no part. -/
theorem get?_lastParams_perm {params params' : List (List Char)} (hp : params'.Perm params)
    (hnames : (Entries.names (params.filterMap param?)).Nodup) (n : String) :
    (lastParams params').get? n = (lastParams params).get? n := by
  have hreverse : (lastParams params').Perm (lastParams params) := by
    refine (List.reverse_perm _).trans (.trans ?_ (List.reverse_perm _).symm)
    exact hp.filterMap param?
  refine Entries.get?_perm hreverse ?_ n
  rw [Entries.names, lastParams, List.map_reverse]
  exact List.nodup_reverse.mpr hnames

/-! ## Includes -/

theorem loader_eq_of_get? (files : FileSource) (overrun : Stop) (depth : Nat) (path : Path)
    {c d : Context} (h : ∀ n, c.get? n = d.get? n) :
    loader files overrun depth path c = loader files overrun depth path d :=
  loader_congr (P := fun _ => True) (fun _ _ _ _ _ => trivial) overrun depth path c d fun n _ => h n

/-- **An include is the included file, rendered on its own.** The file is read from the target's
path, and with one include less to nest it is rendered, against its own directory, in any context in
which each name has the value of its last parameter, read in the context of the include, or else the
value it has there. So parameters for different names may stand in any order; and the include leaves
no trace in its own context. -/
theorem include_eq_file (files : FileSource) (overrun : Stop) (depth : Nat) (base : Path)
    {args : String} {target : List Char} {params : List (List Char)}
    (hwords : words args.toList = target :: params) (c : Context) :
    let includer := includeWith (loader files overrun (depth + 1)) base
    let named : Path := ⟨String.ofList (unquote (trim target))⟩
    let path := if named.isAbsolute then named else base.join named
    (∃ d, Overlaid c params d) ∧
    (∀ d, Overlaid c params d → includer args c = match files path with
      | .ok source => renderSource (loader files overrun depth) path.directory source.toList d
      | .error fault => .error (.failed (.unreadable path fault))) ∧
    (∀ args' params', words args'.toList = target :: params' → params'.Perm params →
      (Entries.names (params.filterMap param?)).Nodup → includer args' c = includer args c) ∧
    ∀ children, renderContent includer children (.directive .includeFile args) c =
      (includer args c, c) := by
  intro includer named path
  have hpath : path = targetPath base target := by
    show (if named.isAbsolute then named else base.join named) = base.join named
    split
    · next habsolute => rw [Path.join, habsolute, Bool.true_or, if_pos rfl]
    · rfl
  have hinclude : ∀ args params d, words args.toList = target :: params → Overlaid c params d →
      includer args c = loader files overrun (depth + 1) path d := by
    intro args params d hwords hd
    simp only [includer, includeWith, hwords, ← hpath]
    exact loader_eq_of_get? files overrun (depth + 1) path
      ((overlaid_overlay c params).get?_eq hd)
  refine ⟨⟨_, overlaid_overlay c params⟩, ?_, ?_, fun _ => rfl⟩
  · intro d hd
    rw [hinclude args params d hwords hd, loader, renderFileWith]
    cases files path <;> rfl
  · intro args' params' hwords' hp hnames
    have hd : Overlaid c params' (overlay c params) := by
      intro n
      rw [get?_lastParams_perm hp hnames n]
      exact overlaid_overlay c params n
    rw [hinclude args' params' _ hwords' hd,
      hinclude args params _ hwords (overlaid_overlay c params)]

/-- A parameter is read in the context of the include, whatever stands before it; the last one for a
name counts. The file is the one beside the including one's directory, and no other is there. -/
theorem include_eq_file_swap :
    let c := Context.ofList [("a", .str "1"), ("b", .str "2")]
    let files : FileSource := fun path =>
      if path = ⟨"t/x/card"⟩ then .ok "p #\x7ba\x7d #\x7bb\x7d" else .error .notFound
    words "x/card a=c b=a a=b".toList =
      "x/card".toList :: ["a=c".toList, "b=a".toList, "a=b".toList] ∧
    includeWith (loader files .outOfFuel 1) ⟨"t"⟩ "x/card a=c b=a a=b" c =
      .ok "<p>2 1</p>\n" := by
  intro c files
  have hwords : words "x/card a=c b=a a=b".toList =
      "x/card".toList :: ["a=c".toList, "b=a".toList, "a=b".toList] := by decide
  have hd : Overlaid c ["a=c".toList, "b=a".toList, "a=b".toList]
      (Context.ofList [("b", .str "1"), ("a", .str "2")]) := by
    have hlast : lastParams ["a=c".toList, "b=a".toList, "a=b".toList] =
        [("a", ['b']), ("b", ['a']), ("a", ['c'])] := by decide
    intro n
    rw [hlast]
    show Entries.get? [("b", Value.str "1"), ("a", Value.str "2")] n = _
    by_cases ha : "a" = n
    · subst ha
      rfl
    · by_cases hb : "b" = n
      · subst hb
        rfl
      · show _ = match Entries.get? _ n with
          | some raw => some (attributeValue raw c)
          | none => Entries.get? [("a", Value.str "1"), ("b", Value.str "2")] n
        simp only [Entries.get?_cons, if_neg ha, if_neg hb]
        rfl
  have hparse : Forest.parse "p #\x7ba\x7d #\x7bb\x7d".toList =
      [.mk 0 (.tag ⟨"p", [], some "#\x7ba\x7d #\x7bb\x7d", false⟩) []] := rfl
  have hfile : renderSource (loader files .outOfFuel 0) ⟨"t/x"⟩ "p #\x7ba\x7d #\x7bb\x7d".toList
      (Context.ofList [("b", .str "1"), ("a", .str "2")]) = .ok "<p>2 1</p>\n" := by
    rw [renderSource, hparse]
    simp only [renderForest, renderNodes, Content.branch?, renderContent, renderTag,
      Rendering.append_apply, Rendering.emit]
    exact congrArg Except.ok (by decide +kernel)
  exact ⟨hwords, ((include_eq_file files .outOfFuel 0 ⟨"t"⟩ hwords c).2.1 _ hd).trans hfile⟩

end Stencil
