/-! The upper and the lower case of code points. -/
namespace VueScope.Text

/-- Letters past ASCII whose upper case is one letter, and these letters in the same order. -/
private def upperSingles : List (Char × Char) :=
  List.zip
    ("µÿıſƀƈƌƒƕƙƚƞƨƭưƹƽƿǅǆǈǉǋǌǝǲǳǵȼɂɐɑɒɓɔəɛɜɠɡɣɥɦɨɩɪɫɬɯɱɲɵɽʀʂʃʇʈʉʌʒʝʞͅͷάςόϐϑϕϖϗϰϱϲ" ++
    "ϳϵϸϻӏᲀᲁᲂᲅᲆᲇᲈᵹᵽᶎẛιῥⅎↄⱡⱥⱦⱳⱶⳳⴧⴭꞌꞔꟑꟶꭓ").toList
    ("ΜŸISɃƇƋƑǶƘȽȠƧƬƯƸƼǷǄǄǇǇǊǊƎǱǱǴȻɁⱯⱭⱰƁƆƏƐꞫƓꞬƔꞍꞪƗƖꞮⱢꞭƜⱮƝƟⱤƦꟅƩꞱƮɄɅƷꞲꞰΙͶΆΣΌΒΘΦΠϏΚΡϹ" ++
    "ͿΕϷϺӀВДОТЪѢꙊꝽⱣꟆṠΙῬℲↃⱠȺȾⱲⱵⳲჇჍꞋꟄꟐꟵꞳ").toList

/-- The first and the last letter of a run, and the upper case of the first. -/
def runsOf : List Char → List (Nat × Nat × Nat)
  | first :: last :: upper :: rest => (first.toNat, last.toNat, upper.toNat) :: runsOf rest
  | _ => []

/-- Runs of letters, each as far from its upper case as the first. -/
private def denseRuns : List (Nat × Nat × Nat) :=
  runsOf ("àöÀøþØȿɀⱾɖɗƉʊʋƱͻͽϽέίΈαρΑσϋΣύώΎаяАѐџЀաֆԱაჺᲐჽჿᲽᏸᏽᏰᲃᲄСἀἇἈἐἕἘἠἧἨἰἷἸὀὅὈὠὧὨὰάᾺὲήῈὶίῚ" ++
    "ὸόῸὺύῪὼώῺᾰᾱᾸῐῑῘῠῡῨⅰⅿⅠⓐⓩⒶⰰⱟⰀⴀⴥႠꭰꮿᎠａｚＡ𐐨𐑏𐐀𐓘𐓻𐒰𐖗𐖡𐕰𐖣𐖱𐕼𐖳𐖹𐖌𐖻𐖼𐖔𐳀𐳲𐲀𑣀𑣟𑢠𖹠𖹿𖹀𞤢𞥃𞤀").toList

/-- Such runs in which every other code point is a letter of the run. -/
private def sparseRuns : List (Nat × Nat × Nat) :=
  runsOf ("āįĀĳķĲĺňĹŋŷŊźžŹƃƅƂơƥƠƴƶƳǎǜǍǟǯǞǹȟǸȣȳȢɇɏɆͱͳͰϙϯϘѡҁѠҋҿҊӂӎӁӑԯӐḁẕḀạỿẠὑὗὙⱨⱬⱧⲁⳣⲀⳬⳮⳫꙁꙭꙀ" ++
    "ꚁꚛꚀꜣꜯꜢꜳꝯꜲꝺꝼꝹꝿꞇꝾꞑꞓꞐꞗꞩꞖꞵꟃꞴꟈꟊꟇꟗꟙꟖ").toList

/-- Blocks of sixteen letters with an iota below, whose upper case is a letter of the eight from
a code point on and an iota. -/
private def iotaBlocks : List (Nat × Nat) :=
  [(0x1F80, 0x1F08), (0x1F90, 0x1F28), (0x1FA0, 0x1F68)]

/-- Other letters whose upper case is several code points. -/
private def upperExpansions : List (Char × String) :=
  [('ß', "SS"), ('ŉ', "ʼN"), ('ǰ', "J̌"), ('ΐ', "Ϊ́"), ('ΰ', "Ϋ́"), ('և', "ԵՒ"), ('ẖ', "H̱"),
    ('ẗ', "T̈"), ('ẘ', "W̊"), ('ẙ', "Y̊"), ('ẚ', "Aʾ"), ('ὐ', "Υ̓"), ('ὒ', "Υ̓̀"), ('ὔ', "Υ̓́"),
    ('ὖ', "Υ̓͂"), ('ᾲ', "ᾺΙ"), ('ᾳ', "ΑΙ"), ('ᾴ', "ΆΙ"), ('ᾶ', "Α͂"), ('ᾷ', "Α͂Ι"), ('ᾼ', "ΑΙ"),
    ('ῂ', "ῊΙ"), ('ῃ', "ΗΙ"), ('ῄ', "ΉΙ"), ('ῆ', "Η͂"), ('ῇ', "Η͂Ι"), ('ῌ', "ΗΙ"), ('ῒ', "Ϊ̀"),
    ('ΐ', "Ϊ́"), ('ῖ', "Ι͂"), ('ῗ', "Ϊ͂"), ('ῢ', "Ϋ̀"), ('ΰ', "Ϋ́"), ('ῤ', "Ρ̓"),
    ('ῦ', "Υ͂"), ('ῧ', "Ϋ͂"), ('ῲ', "ῺΙ"), ('ῳ', "ΩΙ"), ('ῴ', "ΏΙ"), ('ῶ', "Ω͂"), ('ῷ', "Ω͂Ι"),
    ('ῼ', "ΩΙ"), ('ﬀ', "FF"), ('ﬁ', "FI"), ('ﬂ', "FL"), ('ﬃ', "FFI"), ('ﬄ', "FFL"), ('ﬅ', "ST"),
    ('ﬆ', "ST"), ('ﬓ', "ՄՆ"), ('ﬔ', "ՄԵ"), ('ﬕ', "ՄԻ"), ('ﬖ', "ՎՆ"), ('ﬗ', "ՄԽ")]

/-- Capitals whose lower case has another upper case, or one more, and these letters. -/
private def lowerSingles : List (Char × Char) :=
  List.zip "ǄǅǇǈǊǋǱǲϴẞᾼῌῼΩKÅ".toList "ǆǆǉǉǌǌǳǳθßᾳῃῳωkå".toList

private def inRun? (dense sparse : List (Nat × Nat × Nat)) (n : Nat) : Option Char :=
  let covers (step : Nat) (run : Nat × Nat × Nat) : Bool :=
    run.1 ≤ n && n ≤ run.2.1 && (n - run.1) % step == 0
  ((dense.find? (covers 1)).or (sparse.find? (covers 2))).map fun (first, _, other) =>
    Char.ofNat (other + (n - first))

private def upperExpansion? (c : Char) : Option (List Char) :=
  ((upperExpansions.lookup c).map String.toList).or <|
    (iotaBlocks.lookup (c.toNat - c.toNat % 16)).map fun letter =>
      [Char.ofNat (letter + c.toNat % 8), 'Ι']

def upperChar (c : Char) : List Char :=
  if c.toNat < 0x80 then [c.toUpper]
  else (upperExpansion? c).getD [((upperSingles.lookup c).or (inRun? denseRuns sparseRuns c.toNat)).getD c]

def upper (text : List Char) : List Char :=
  text.flatMap upperChar

/-- The small form of a letter, where it is one letter and the same in every place. -/
def lowerChar (c : Char) : Char :=
  let n := c.toNat
  let turned := List.map fun (first, last, upper) => (upper, upper + (last - first), first)
  if n < 0x80 then c.toLower
  else if 8 ≤ n % 16 && (iotaBlocks.lookup (n - n % 16)).isSome then Char.ofNat (n - 8)
  else
    ((lowerSingles.lookup c).or <| (inRun? (turned denseRuns) (turned sparseRuns) n).or <|
      (upperSingles.find? fun (_, upper) => upper = c).map Prod.fst).getD c

def lower (text : List Char) : List Char :=
  text.map lowerChar

end VueScope.Text
