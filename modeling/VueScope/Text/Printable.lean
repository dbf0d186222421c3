import VueScope.Text.Alphanumeric

/-! Which code points print as themselves. Controls, format characters, separators other
than the space, private and unassigned code points do not. -/
namespace VueScope.Text

/-- How many code points past the tilde do not print, how many after them do, and so on. -/
def printableRuns : List Nat :=
  runLengths <|
    "W3C1s12647111K1hP1W72WJ231WO8R46HM1b61WH2WS2Y8EWS2WI2F1S211B5W09XC1a618222M1711342922248142152P" ++
    "2316422M17121212211542233174117HA319131M1712152A131321F42C771318222M1712152922237342152IA216331" ++
    "432111232333C4533142161EL5D131N1G291314721321242A7M131N1A152913147262142A12DD131WK13164G2Q131I3" ++
    "O191127314611186A23CWR4TW6211151O111N2511162A24W1XA1W54W81W51F1DW6bC11512h5142711142WA142W21427" ++
    "11142F1WQ142X52W13Q6XO262pK1S3XR7M9O9KCD1312CY12A6A6E1B6XR7WC5X8AW01C4C413WB25BWD4Q6B3X02X31T2B" ++
    "6A6E2W0WIXF3WG1YN8WT3F3WT7WC2B8WC5m7262W726281111111W02WM1F1E261J2319HO8WGH22R1D3W2FW2FZG4qCPBL" ++
    "WwE2W11g85WE11512WP72EO97171717171717171Z2W3Q1XRCbSQC5X11XO2YA5WC1Y11XMCWG1zjT3WO9g7KaT8bH52111" ++
    "5OWS3A6WP8X88C6YNBU3XG1B4W21WO9E2A2YAOSA6262697171WT4Z22A6goCCN4WIdtKgP2YDW77C55Q151112121Z1GjB" ++
    "2WN71W1WB6WK1J14451ZB4b4362626233717D22C1Q1J121F2EW3YU534WE3XQ1D31WGWFZ6T3WIFS4W59U5WC5U1W64EWB" ++
    "a32A6W54W54W98WLBC1F17121B1F1712X5f19MA8O61WB19X76211WD12312N1XA89WHJ125W23R51X2WP4K2WJ1258131T" ++
    "234A797X2W1W84C9WN3T2R5Q74C7XIXBWOWKDWK7WF8AeFW01WB1322XGW98WBMQW7SKN9XG4W59X015DP7A6WM1I8W89Y3" ++
    "1KBI1WDX3711141F1B6WS5A6418222M1712151A22232161572735ZFXU15UXA8AaBWN2W7W3X7BA6DJWR6AWNR2F4NaUWT" ++
    "Y7XLC82128121U122C9AX882WF2BRXA8XLDXBdF91WE1EAT3W12M1EXB7121WD3112198A66121W612167Af0PaS1FWJDyO" ++
    "Y9YI15BbAXs1Y6DWYHZbJnPdzFnB7W01A4XJ1A6U26AX8AA171L5Jr6XTY8XD4WQ7HX25B2EbgT8WdTWB9ee7417121eCWE" ++
    "3H48hOXhEYE5D397A24ZwNWF2N9YNWTcTAW82XC8YJLX8ZUKCXP9PZBXN1X9122122241C11171X31428171S141511371f" ++
    "U2eD2rKF51FWZJW0c871H271215bRWE3E2A42fAW0HWR51We8714121F1bB2GWAXE4A42uAX6XEWUb841R1211211A14111" ++
    "1614111111312112111111111121124171414111A1H53151HWL2dMWD4Y7CF2F1F1W6AaJWPTDWD4972E6ZUWVN5G3D3YN" ++
    "CXR7C41FC4WP8A6W98U22XGfUCE2535379T3B56AA68879ZN1WOW6AWX7Wij2W1ZeU7c52azREct2Yc3mFWmIaZAtWdKcN"

def isPrintable (c : Char) : Bool :=
  let n := c.toNat
  if n < 0x7F then 0x20 ≤ n else inRuns false (n - 0x7F) printableRuns

end VueScope.Text
