/-! Letters, digits and other numbers of every script. Marks that only combine with a
letter before them are neither. -/
namespace VueScope.Text

private def digitValue (c : Char) : Nat :=
  if c.isDigit then c.toNat - '0'.toNat
  else if c.isUpper then c.toNat - 'A'.toNat + 10
  else c.toNat - 'a'.toNat + 36

/-- Lengths written in base 31. A digit of 31 or more stands for one that is 31 less and is not the
last of its number. -/
def runLengths (written : String) : List Nat :=
  decode 0 written.toList
where
  decode (high : Nat) : List Char → List Nat
    | [] => []
    | c :: rest =>
      let digit := digitValue c
      if digit < 31 then (31 * high + digit) :: decode 0 rest
      else decode (31 * high + (digit - 31)) rest

/-- How many code points past ASCII are no letter or number, how many after them are, and so on. -/
def alphanumericRuns : List Nat :=
  runLengths <|
    "WB1721132131N1W01jO4CE57111Z551224116113111K1XL1ZF8aB1W7216WAX9R44WEWCLA421Y611F27F21G11UTXRB1E" ++
    "WC92415M419131NP7B5O16HWBWRWN31I17A4A1G48222M17113431G1D2134C262186422M17121212W04117A23G9131M1" ++
    "7121531I1F24A91B8222M17121531U2134A17B116331432111232333CM1LDI8131N1G31Q321224A871148131N1A1531" ++
    "W02124A12H9131WA21G1531A4J165I3O191127W0AHWH12C79AW8211151O111A129125119A24W11W0KC81W5R5YMWCKB6" ++
    "6443132734DC11A6W711512WC1fN142711142WA142W2142711142F1WQ142X5EK3GGXO263p02H1Q5XD3B7IDJEIED13FW" ++
    "LW41413A6AMA6XR752W3115X8AW0W8W925BWD4Q6BW6N9WMWCA6AD1Y0WGH83AWAUDWPQW5SA3WI297WC23WA41612315b6" ++
    "X2dU262W726281111111W02WM1711331734264D5317YM2265B6DY81412A1135611111141B2455411WRsDWTXGMpAUWaG" ++
    "cC6432912W711512WP71GN9717171717171717XI1k43P975254XO631XS145WC1Y134AW1WHGW1AU81FW1AW8FfAbvKX2s" ++
    "WNX5WF2dL3SKWGGW02XIW892YA2X2521115OG13141ND6AWLEWJSAO631121W7ANPT7WGSB651P1WAN3184A6N313WJ1132" ++
    "252111O32B73C6262697171WC1E6YMDA6goCCN4WIdtKgP2YDW77C5511A1D151112121YFW2gMIX22WNW9CYN51ZBJA7Q6" ++
    "QBXR36262623W4C1Q1J121F2EW3YUCWECWQH2cRT3WIGR4W59U5W7AU2W54815WBa32A6W54W54W98WLCB1F17121B1F171" ++
    "2X5f19MA8O61WB19X76211WD12312N2W02W789WHJ125W24QX8WP4K2WGF4131TA9NW01W1W181S65GWNAM2R5QN7XIXBWO" ++
    "WKDWK7WBCAeFW01WB62XGW98MB4RIWFSKNCWMQU1221DWEW1P7A9W5FA41218W431CWHE4BB114KBI1PXM711141F1A7WGH" ++
    "AB8222M17121531I1C5a3WMI45A53UWHK2118AaBWGWA4W5WHK1BAW7WCD17AWNRLC47aUWDYNXLC82128121OF111EAX88" ++
    "2W8G111S1AW971L1BWFJ1IXBdF91W6H1FT5UYJ7121W7L19A66121W1E17Af0Jb31FLWCyNY9YIHbAXs1Y4FWYHZbJnPdzF" ++
    "nB7W01A6XH1A6UIWHG4CA171L5Jr6XPYCXD51X4DX2211SbgT8WdTWB9ee7417121eCWE3H48hOXhEYE5D397AaxTKYFPZB" ++
    "XN1X9122122241C11171X31428171S141511371fU2P1P1W01P1W01P1W01P1W01P182WJWvPW0kGWEA72A41fBUIWD4AWe" ++
    "E714121F1bB29WHX6714AuGWS1314XEWE1Fb841R1211211A141111614111111312112111111111121124171414111A1" ++
    "H53151HnMDXwSAWX7Wij2W1ZeU7c52azREct2Yc3mFWmIaZA"

/-- Whether a number falls into a run that counts, when every other run does. -/
def inRuns (inside : Bool) (n : Nat) : List Nat → Bool
  | [] => false
  | length :: rest => if n < length then inside else inRuns (!inside) (n - length) rest

def isAlphanumeric (c : Char) : Bool :=
  let n := c.toNat
  if n < 0x80 then c.isAlphanum else inRuns false (n - 0x80) alphanumericRuns

end VueScope.Text
