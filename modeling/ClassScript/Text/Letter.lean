import ClassScript.Text.CharSet

/-!
# Letters and Numerals

The characters that may stand inside a name. ASCII characters are decided before the tables are
searched; the tables hold them too.
-/

namespace ClassScript

namespace Text

def letters : CharSet := .ofLengths [
  0x118112121111E4F596124E12CE1829B11AB12C111311611422155A11AE111751E1C479A13F12F51411A15F3A63A189,
  0x12B1D1F43128119C6731C1A5A29613851B7392B2B23851421949381CD1D68281231A341841811CE1E717851B3D443B,
  0x1321311935121712E13119131B629114714222454212121712E224613411A21C51241181122221834311712E222181,
  0x11831311832812F1311D5816133133541C3332321112341336122811D512421922221835121712E2221813442D41F1,
  0x11D22A1811161872111913832A13162E5745113131182591311D1C31D41262183131183511A12F13118143C4212312,
  0x15924111724159D15B215114E241A1882852116F18B4C12842B44C1187F14841E161152312B111381511126B16757A,
  0x171B918B1411E2B26C1C21311D1C2C1C2D1B2C71B319B53A129219DC3621AE28284D18B2417911F24111724149241,
  0x1459325B71924C1A32E6F1E1B15C1A425A6B1811F16C6931B22F16A2C27F43C6E3A45C1B523E2F1941C13F1A18E55B,
  0x114111111653111A21411CD1D2811D11EC71351D46243713311716D23F1111111182624E2624AE1B1E4F3885132161,
  0x1411BA1361AE45257193937AD15F481717171717171717192F281778215114E1C23463CD3CAE6C1CDD59291455421B,
  0x1118C1C6C384912C3851112518821CF2194F1E931855F2C21A28349D25E18B5BA9D1881CF881888286848291BE15B5,
  0x11C2DECC2D1FB61E15B171719626261B42282338111118D32F2A1E196F151A282811F1C16B33D1D4B5491A311365C1,
  0x13A11C4B326262631B91B3A63A4C28F151EC1C586E21882A5DB491DC1212111511D11C551C74E1DA25DE28C8C6942F,
  0x121711F11B121711F11B1C6C185844C44C2A2BE5A511844C23E55B53E1D485F6933D49B6D18D1FB4A1E21F1212B1,
  0x14B3D33D5A3D131185214188267818E3A1A2E1A212B1893F192F1A2F213215C112618D1915A1638181A2E194EF18B,
  0x12F391D119791A55B18E192F3B2D5E2A5A2E1811A3D19E23215A5B8581D6B1D6B6F1991DE2A1D2B1A2E1A6E3B3C118,
  0x1413118A2BC75161322221835121712E22218142F7971A11F1411177E46124A12A4B1111A2194118819134B184296B,
  0x12111625E2181BD4222213E12118212183F1881CF792F972D1E23B18F126E7B13117F4A639726E2F8112218A3E32C,
  0x111DF3359129192F58F1141214D12163822113121135C12171991E12E23E6911715D11948F1992A15198291A26B3B,
  0x179419B2881881AE82B52D3F428682A3E2919F293F718F928EF9198F7EF962928E81F1C9599C38C291DF1CE1EBA19F,
  0x1122118F11AD1BDC9141A71931D51DB4C8C69C1841E1233D11F4CB12171429BCF195A2BAE181BFF81E21C112188297,
  0x1551217229173AD663F3CEC1813913F13913F13913F13913F13913925AC1731151413C17118241189171111C14222,
  0x12112131111114161111411A11211213B142AEC131318C7B38D11F1214171BEC3C7CC5C2A3E58912871A5D1E81497E,
  0x118BE68BF1ECE91E1BA8A23BE6188FA481ABBC879EE3A63A63A19EC29151352911A111414171421121111111111,
  0x1189C8519D9B2FCA]

def numerals : CharSet := .ofLengths [
  0x11A1C81A1DD2B771D81A1CF7181A1EB1D1DE621A1EE1A1EE1A1DC641A1EE1A6BC1A38E1A28E1A2EC9321521F81A68,
  0x138E1A663128AE1A61A28E1A1AE1A2EE1A61A2CD1B2881A4DC1A2E1A61A3DF31DE92C1B9F1A18E1A49C2C18E1A1EE,
  0x11A38E1A4E1A2BA65881A2FC1A79DC81F4F1A481F1183E1A29A45AF31E193911C9912DD93E19EE2E19E7C1BAE526B,
  0x16C191885E228222C862E519B194F739181EDE1A39A528E11813D44C3B5AD229791C5D7DD1A59CAE1A6AE1A1AE1A2E,
  0x11A1CE1A5EE1A1EE1A5AE1A3FB2C71A2A81A7C1A2883E28E71E845A1A2BE3F4CE1A68659A7591838181D8519B33E2,
  0x129AD391DC2C1C2C6A8D92F1CBE711A28E1A1AE1A4AFE91DF28DB2D1CE1A6CE1A18E1A3CB3D1BEE1A1BD2B6CC1C1CE,
  0x11A5BCB1D1F8A1F15D19C41317B1CAF1A288191F9D1A7EE1A6CE1A4D886A]

def isLetter (c : Char) : Bool :=
  if c.toNat < 128 then c.isAlpha else letters.contains c

def isNumeral (c : Char) : Bool :=
  if c.toNat < 128 then c.isDigit else numerals.contains c

def isLetterOrNumeral (c : Char) : Bool :=
  isLetter c || isNumeral c

end Text

end ClassScript
