import VueScope.Proofs.Markup.Interpolations
import VueScope.Proofs.Markup.Preamble
import VueScope.Proofs.Markup.RawRegions

/-! Masking byte for byte. A text is cut at its raw regions, each the first that starts behind the one
before, and what lies between them at its interpolations. Masking keeps every byte but those of the
bodies, which all become spaces. -/
namespace VueScope.Text

theorem encode_spaces (count : Nat) : encode (List.replicate count ' ') = List.replicate count 0x20 := by
  induction count with
  | zero => rfl
  | succ count ih =>
    rw [List.replicate_succ,encode,List.flatMap_cons,← encode,ih,List.replicate_succ]
    rfl

end VueScope.Text

namespace VueScope.Markup

open Text

/-- No raw region starts in a text that has the rest of the file behind it. -/
def Unbroken (content rest : List Char) : Prop :=
  ∀ passed more region after, content = passed ++ more → more ≠ [] → more ++ rest = region ++ after →
    ¬RawRegion after region

/-- A part of a file: a raw region, or a piece of what lies between raw regions. -/
inductive Part where
  | live (piece : Piece)
  | raw (region : List Char)

/-- A file cut at its raw regions, from left to right, and between them at its interpolations. -/
inductive Dissected : List Char → List Part → Prop
  | last {content pieces} (unbroken : Unbroken content []) (cut : Piece.Cut content pieces) :
      Dissected content (pieces.map .live)
  | next {content region rest pieces parts} (unbroken : Unbroken content (region ++ rest))
      (starts : RawRegion rest region) (cut : Piece.Cut content pieces) (later : Dissected rest parts) :
      Dissected (content ++ (region ++ rest)) (pieces.map .live ++ .raw region :: parts)

variable {content text : List Char} {parts : List Part} {start : Nat}

namespace Unbroken

theorem nil (rest : List Char) : Unbroken [] rest := by
  intro passed more region after parts some
  exact absurd (List.append_eq_nil_iff.mp parts.symm).2 some

variable {c : Char} {rest : List Char}

theorem cons {content : List Char} (here : afterRawRegion? (c :: (content ++ rest)) = none)
    (unbroken : Unbroken content rest) : Unbroken (c :: content) rest := by
  intro passed more region after parts some same raw
  cases passed with
  | nil =>
    obtain rfl := parts
    rw [← List.cons_append,(afterRawRegion?_eq_some_iff _ after).mpr ⟨region,same,raw⟩] at here
    contradiction
  | cons d passed => exact unbroken passed more region after (List.cons.inj parts).2 some same raw

theorem head (unbroken : Unbroken (c :: content) rest) :
    afterRawRegion? (c :: (content ++ rest)) = none := by
  cases found : afterRawRegion? (c :: (content ++ rest)) with
  | none => rfl
  | some after =>
    obtain ⟨region,same,raw⟩ := (afterRawRegion?_eq_some_iff _ after).mp found
    exact absurd raw (unbroken [] (c :: content) region after rfl (List.cons_ne_nil _ _) same)

theorem tail (unbroken : Unbroken (c :: content) rest) :
    Unbroken content rest := by
  intro passed more region after parts
  exact unbroken (c :: passed) more region after (by rw [parts]; rfl)

end Unbroken

theorem exists_dissected (text : List Char) : ∃ parts, Dissected text parts := by
  induction size : text.length using Nat.strongRecOn generalizing text with
  | _ size ih =>
    cases text with
    | nil => exact ⟨_,.last (.nil []) (Piece.cut_split [])⟩
    | cons c cs =>
      rw [List.length_cons] at size
      cases found : afterRawRegion? (c :: cs) with
      | some after =>
        have shorter := (suffix_of_afterRawRegion? found).length_le
        rw [List.tail_cons] at shorter
        obtain ⟨parts,later⟩ := ih after.length (by omega) after rfl
        obtain ⟨region,same,raw⟩ := (afterRawRegion?_eq_some_iff _ after).mp found
        rw [same]
        exact ⟨_,.next (.nil _) raw (Piece.cut_split []) later⟩
      | none =>
        obtain ⟨parts,later⟩ := ih cs.length (by omega) cs rfl
        cases later with
        | last unbroken cut =>
          have still : Unbroken (c :: cs) [] := .cons (by rw [List.append_nil]; exact found) unbroken
          exact ⟨_,.last still (Piece.cut_split _)⟩
        | @next content region rest pieces parts unbroken raw cut later =>
          have still : Unbroken (c :: content) (region ++ rest) := .cons found unbroken
          exact ⟨_,@Dissected.next (c :: content) region rest _ _ still raw (Piece.cut_split _) later⟩

theorem Dissected.unique {others : List Part} (one : Dissected text parts) (other : Dissected text others) :
    parts = others := by
  -- a raw region of one cut cannot start inside live text of the other
  have early {content front region rest : List Char} (raw : RawRegion rest region)
      {more back : List Char} (some : more ≠ []) (parts : content = front ++ more)
      (same : more ++ back = region ++ rest) : ¬Unbroken content back :=
    fun unbroken => unbroken front more region rest parts some same raw
  induction one generalizing others with
  | last unbroken cut =>
    cases other with
    | last _ others => rw [cut.unique others]
    | next _ raw =>
      refine absurd unbroken (early raw ?_ rfl (List.append_nil _))
      exact fun none => raw.ne_nil (List.append_eq_nil_iff.mp none).1
  | @next content region rest pieces parts unbroken raw cut later ih =>
    generalize whole : content ++ (region ++ rest) = text at other
    cases other with
    | last plain =>
      refine absurd plain (early raw ?_ whole.symm (List.append_nil _))
      exact fun none => raw.ne_nil (List.append_eq_nil_iff.mp none).1
    | @next front area behind _ _ free starts others further =>
      have ends : content = front ∧ region ++ rest = area ++ behind := by
        rcases List.append_eq_append_iff.mp whole with ⟨more,rfl,same⟩ | ⟨more,rfl,same⟩
        · cases more with
          | nil => exact ⟨(List.append_nil _).symm,same⟩
          | cons c more => exact absurd free (early raw (List.cons_ne_nil c more) rfl same.symm)
        · cases more with
          | nil => exact ⟨List.append_nil _,same.symm⟩
          | cons c more => exact absurd unbroken (early starts (List.cons_ne_nil c more) rfl same.symm)
      obtain ⟨rfl,same⟩ := ends
      have first := (afterRawRegion?_eq_some_iff _ rest).mpr ⟨region,rfl,raw⟩
      rw [same,(afterRawRegion?_eq_some_iff _ behind).mpr ⟨area,rfl,starts⟩] at first
      cases first
      cases List.append_cancel_right same
      rw [cut.unique others,ih further]

/-! The masked text. -/

namespace Part

def source : Part → List Char
  | live piece => piece.source
  | raw region => region

def masked : Part → List Char
  | live piece => maskPiece piece
  | raw region => region

def maskedBytes : Part → List UInt8
  | live (.text content) => encode content
  | live (.interpolation body) =>
    encode Piece.opening ++ List.replicate (encode body).length 0x20 ++ encode Piece.closing
  | raw region => encode region

theorem encode_masked (part : Part) : encode part.masked = part.maskedBytes := by
  have spaces (body : List Char) : body.flatMap blank = List.replicate (byteLength body) ' ' := by
    induction body with
    | nil => rfl
    | cons c rest ih => rw [List.flatMap_cons,ih,blank,List.replicate_append_replicate,byteLength]
  cases part with
  | live piece =>
    cases piece with
    | text content => rfl
    | interpolation body =>
      simp only [masked,maskPiece,maskedBytes,encode_append,spaces,encode_spaces,length_encode]
  | raw region => rfl

theorem length_maskedBytes (part : Part) : part.maskedBytes.length = (encode part.source).length := by
  cases part with
  | live piece =>
    cases piece with
    | text content => rfl
    | interpolation body =>
      simp only [maskedBytes,source,Piece.source,encode_append,List.length_append,List.length_replicate]
  | raw region => rfl

end Part

theorem Dissected.source_eq (dissected : Dissected text parts) : parts.flatMap Part.source = text := by
  induction dissected with
  | last _ cut => rw [List.flatMap_map]; exact cut.source_eq
  | next _ _ cut _ ih =>
    rw [List.flatMap_append,List.flatMap_map,List.flatMap_cons,ih]
    exact congrArg (· ++ _) cut.source_eq

namespace Stretch

theorem splitWithin_append (fuel : Nat) (content rest : List Char)
    (enough : (content ++ rest).length ≤ fuel) (unbroken : Unbroken content rest) :
    splitWithin fuel (content ++ rest) = content.foldr consLive (splitWithin (fuel - content.length) rest) := by
  induction content generalizing fuel with
  | nil => rfl
  | cons c content ih =>
    rw [List.cons_append,List.length_cons] at enough
    obtain ⟨fuel,rfl⟩ : ∃ less, fuel = less + 1 := ⟨fuel - 1,by omega⟩
    rw [List.cons_append,splitWithin,unbroken.head,List.foldr_cons]
    dsimp only
    rw [ih fuel (by omega) unbroken.tail,List.length_cons,Nat.add_sub_add_right]

theorem mask_foldr_consLive (content : List Char) (stretches : List Stretch)
    (raw : ∀ stretch ∈ stretches.head?, ∃ region, stretch = .raw region) :
    (content.foldr consLive stretches).flatMap maskStretch =
      maskStretch (.live content) ++ stretches.flatMap maskStretch := by
  have joined (c : Char) (content : List Char) :
      (c :: content).foldr consLive stretches = .live (c :: content) :: stretches := by
    induction content generalizing c with
    | nil =>
      cases stretches with
      | nil => rfl
      | cons stretch rest =>
        obtain ⟨region,rfl⟩ := raw stretch rfl
        rfl
    | cons d content ih => rw [List.foldr_cons,ih,consLive]
  cases content with
  | nil => rfl
  | cons c content => rw [joined,List.flatMap_cons]

end Stretch

theorem maskStretch_of_cut {pieces : List Piece} (cut : Piece.Cut content pieces) :
    maskStretch (.live content) = pieces.flatMap maskPiece := by
  rw [Piece.Cut.iff_eq_split.mp cut]
  rfl

theorem Dissected.mask_eq (dissected : Dissected text parts) : mask text = parts.flatMap Part.masked := by
  induction dissected with
  | @last content pieces unbroken cut =>
    have split := Stretch.splitWithin_append content.length content []
      (Nat.le_of_eq (by rw [List.append_nil])) unbroken
    rw [List.append_nil,Nat.sub_self] at split
    rw [mask,Stretch.split,split,Stretch.mask_foldr_consLive content _ (fun _ head => by contradiction),
      maskStretch_of_cut cut,List.flatMap_map]
    exact List.append_nil _
  | @next content region rest pieces parts unbroken raw cut later ih =>
    have found := (afterRawRegion?_eq_some_iff _ rest).mpr ⟨region,rfl,raw⟩
    obtain ⟨c,cs,same⟩ := List.exists_cons_of_ne_nil
      (fun none => raw.ne_nil (List.append_eq_nil_iff.mp none).1 : region ++ rest ≠ [])
    have whole : (region ++ rest).take ((region ++ rest).length - rest.length) = region := by
      rw [List.length_append,Nat.add_sub_cancel,List.take_left]
    have behind : Stretch.splitWithin (region ++ rest).length (region ++ rest) =
        .raw region :: Stretch.split rest := by
      have shorter := (suffix_of_afterRawRegion? found).length_le
      rw [same] at found whole shorter ⊢
      rw [List.length_cons,Stretch.splitWithin,found]
      dsimp only
      rw [whole,Stretch.split,Stretch.splitWithin_eq_of_fuel cs.length rest.length rest shorter (Nat.le_refl _)]
    have first : ∀ stretch ∈ (Stretch.raw region :: Stretch.split rest).head?, ∃ region, stretch = .raw region :=
      fun stretch head => ⟨region,(Option.some.inj head).symm⟩
    rw [mask,Stretch.split,Stretch.splitWithin_append _ content _ (Nat.le_refl _) unbroken,
      List.length_append,Nat.add_sub_cancel_left,behind,Stretch.mask_foldr_consLive content _ first,
      maskStretch_of_cut cut,List.flatMap_append,List.flatMap_map,List.flatMap_cons,List.flatMap_cons,
      ← mask,ih]
    rfl

theorem Dissected.encode_mask (dissected : Dissected text parts) :
    encode (mask text) = parts.flatMap Part.maskedBytes := by
  rw [dissected.mask_eq,encode,List.flatMap_assoc]
  exact congrArg parts.flatMap (funext Part.encode_masked)

/-! Where the parts stand. -/

def PartAt (parts : List Part) (part : Part) (start : Nat) : Prop :=
  ∃ before after, parts = before ++ part :: after ∧ start = (encode (before.flatMap Part.source)).length

def bytesAt (bytes : List UInt8) (start length : Nat) : List UInt8 :=
  (bytes.drop start).take length

theorem bytesAt_append (before inner after : List UInt8) :
    bytesAt (before ++ (inner ++ after)) before.length inner.length = inner := by
  rw [bytesAt,List.drop_left,List.take_left]

theorem length_flatMap_maskedBytes (parts : List Part) :
    (parts.flatMap Part.maskedBytes).length = (encode (parts.flatMap Part.source)).length := by
  induction parts with
  | nil => rfl
  | cons part rest ih =>
    rw [List.flatMap_cons,List.length_append,ih,part.length_maskedBytes,List.flatMap_cons,encode_append,
      List.length_append]

namespace PartAt

theorem head (part : Part) (rest : List Part) : PartAt (part :: rest) part 0 :=
  ⟨[],rest,rfl,rfl⟩

theorem cons (first : Part) {part : Part} (stands : PartAt parts part start) :
    PartAt (first :: parts) part ((encode first.source).length + start) := by
  obtain ⟨before,after,rfl,rfl⟩ := stands
  refine ⟨first :: before,after,rfl,?_⟩
  rw [List.flatMap_cons,encode_append,List.length_append]

theorem bytesAt_eq {part : Part} (stands : PartAt parts part start) (front inner back : List UInt8)
    (bytes : part.maskedBytes = front ++ (inner ++ back)) :
    bytesAt (parts.flatMap Part.maskedBytes) (start + front.length) inner.length = inner := by
  obtain ⟨before,after,rfl,rfl⟩ := stands
  rw [← length_flatMap_maskedBytes,← List.length_append,List.flatMap_append,List.flatMap_cons,bytes]
  simpa only [List.append_assoc] using
    bytesAt_append (before.flatMap Part.maskedBytes ++ front) inner (back ++ after.flatMap Part.maskedBytes)

theorem interpolation_bytes {body : List Char} (stands : PartAt parts (.live (.interpolation body)) start) :
    bytesAt (parts.flatMap Part.maskedBytes) start 2 = encode Piece.opening ∧
      bytesAt (parts.flatMap Part.maskedBytes) (start + 2) (encode body).length =
        List.replicate (encode body).length 0x20 ∧
      bytesAt (parts.flatMap Part.maskedBytes) (start + 2 + (encode body).length) 2 =
        encode Piece.closing := by
  have opening : (encode Piece.opening).length = 2 := by decide
  have closing : (encode Piece.closing).length = 2 := by decide
  have spaces : (List.replicate (encode body).length (0x20 : UInt8)).length = (encode body).length :=
    List.length_replicate
  have bytes := List.append_assoc (encode Piece.opening)
    (List.replicate (encode body).length 0x20) (encode Piece.closing)
  have first := stands.bytesAt_eq [] (encode Piece.opening) _ bytes
  have middle := stands.bytesAt_eq _ _ _ bytes
  have last := stands.bytesAt_eq (encode Piece.opening ++ List.replicate (encode body).length 0x20)
    (encode Piece.closing) [] (by rw [List.append_nil]; rfl)
  rw [List.length_nil,opening] at first
  rw [opening,spaces] at middle
  rw [List.length_append,opening,spaces,closing,← Nat.add_assoc] at last
  exact ⟨first,middle,last⟩

end PartAt

theorem getElem?_outside {front inner other : List UInt8} (back : List UInt8)
    (same : inner.length = other.length) {place : Nat}
    (outside : place < front.length ∨ front.length + other.length ≤ place) :
    (front ++ inner ++ back)[place]? = (front ++ other ++ back)[place]? := by
  rcases outside with early | late
  · rw [List.append_assoc,List.append_assoc,List.getElem?_append_left early,List.getElem?_append_left early]
  · rw [List.getElem?_append_right (by rw [List.length_append,same]; exact late),
      List.getElem?_append_right (by rw [List.length_append]; exact late),List.length_append,
      List.length_append,same]

theorem Part.body_of_changed (part : Part) (place : Nat)
    (changed : part.maskedBytes[place]? ≠ (encode part.source)[place]?) :
    ∃ body, part = .live (.interpolation body) ∧ 2 ≤ place ∧ place < 2 + (encode body).length := by
  cases part with
  | raw region => exact absurd rfl changed
  | live piece =>
    cases piece with
    | text content => exact absurd rfl changed
    | interpolation body =>
      refine ⟨body,rfl,?_⟩
      refine Decidable.byContradiction fun outside => ?_
      have opening : (encode Piece.opening).length = 2 := by decide
      simp only [maskedBytes,source,Piece.source,encode_append] at changed
      exact changed (getElem?_outside _ List.length_replicate (by omega))

theorem body_of_changed (parts : List Part) (place : Nat)
    (changed : (parts.flatMap Part.maskedBytes)[place]? ≠ (encode (parts.flatMap Part.source))[place]?) :
    ∃ body start, PartAt parts (.live (.interpolation body)) start ∧ start + 2 ≤ place ∧
      place < start + 2 + (encode body).length := by
  induction parts generalizing place with
  | nil => exact absurd rfl changed
  | cons part rest ih =>
    have same := part.length_maskedBytes
    rw [List.flatMap_cons,List.flatMap_cons,encode_append] at changed
    by_cases here : place < (encode part.source).length
    · rw [List.getElem?_append_left (by omega),List.getElem?_append_left here] at changed
      obtain ⟨body,rfl,low,high⟩ := part.body_of_changed place changed
      exact ⟨body,0,.head _ rest,by omega,by omega⟩
    · rw [List.getElem?_append_right (by omega),List.getElem?_append_right (by omega),same] at changed
      obtain ⟨body,start,stands,low,high⟩ := ih _ changed
      exact ⟨body,_,stands.cons part,by omega,by omega⟩

/-- Masking keeps every byte offset. A file is cut in one way at its raw regions and, between them, at
its leftmost-shortest interpolations. The masked bytes are as many as those of the file and differ from
them in bodies of interpolations at most, where every byte is a space. Delimiters and raw regions stay. -/
theorem masking_blanks_bodies_alone (text : List Char) :
    ∃ parts, (∀ others, Dissected text others ↔ others = parts) ∧ parts.flatMap Part.source = text ∧
      (encode (mask text)).length = (encode text).length ∧
      (∀ place, (encode (mask text))[place]? ≠ (encode text)[place]? →
        ∃ body start, PartAt parts (.live (.interpolation body)) start ∧ start + 2 ≤ place ∧
          place < start + 2 + (encode body).length) ∧
      (∀ body start, PartAt parts (.live (.interpolation body)) start →
        bytesAt (encode (mask text)) start 2 = encode Piece.opening ∧
        bytesAt (encode (mask text)) (start + 2) (encode body).length =
          List.replicate (encode body).length 0x20 ∧
        bytesAt (encode (mask text)) (start + 2 + (encode body).length) 2 = encode Piece.closing) ∧
      (∀ region start, PartAt parts (.raw region) start →
        bytesAt (encode (mask text)) start (encode region).length = encode region) := by
  obtain ⟨parts,dissected⟩ := exists_dissected text
  have source := dissected.source_eq
  refine ⟨parts,?_,source,?_,?_,?_,?_⟩
  · intro others
    refine ⟨fun other => other.unique dissected,?_⟩
    rintro rfl
    exact dissected
  · rw [dissected.encode_mask,length_flatMap_maskedBytes,source]
  · intro place changed
    rw [dissected.encode_mask,← source] at changed
    exact body_of_changed parts place changed
  · intro body start stands
    rw [dissected.encode_mask]
    exact stands.interpolation_bytes
  · intro region start stands
    rw [dissected.encode_mask]
    exact stands.bytesAt_eq [] (encode region) [] (List.append_nil _).symm

example : mask "<!--\x7b\x7ba\x7d\x7d-->\x7b\x7bé<b\x7d\x7d<style >\x7b\x7bc\x7d\x7d</STYLE>\x7b\x7b>".toList =
    "<!--\x7b\x7ba\x7d\x7d-->\x7b\x7b    \x7d\x7d<style >\x7b\x7bc\x7d\x7d</STYLE>\x7b\x7b>".toList := by
  decide +kernel

end VueScope.Markup
