import AssemblerIndex.Text.Coded

/-!
# Characters in the names of hosts

Every character is allowed in a name, left out of it, or refused.  Of the allowed ones some are
replaced, beyond the change to small letters.
-/

namespace AssemblerIndex.Uri

open AssemblerIndex.Text

/-- What becomes of a character in a name. -/
inductive NameStatus where
  | allowed | leftOut | refused
  deriving DecidableEq, Repr, Inhabited

/-- The status that a mark stands for. -/
def NameStatus.ofMark (mark : List Char) : NameStatus :=
  if mark = ['V'] then .allowed else if mark = ['I'] then .leftOut else .refused

/-- Code points with their status: `V` allowed, `I` left out, `X` refused. -/
def statusCode : String :=
  "128V 32X 13V 1I 673V 1I 40V 2X 6V 4X 7V 1X 1V 1X 20V 1X 397V 1X 38V 2X 50V 2X 3V 1X 55V 8X 27V
   4X 6V 17X 22V 1X 192V 1X 48V 2X 59V 2X 101V 14X 59V 2X 49V 2X 15V 1X 28V 2X 1V 1X 11V 5X 32V
   7X 75V 1X 161V 1X 8V 2X 2V 2X 22V 1X 7V 1X 1V 3X 4V 2X 9V 2X 2V 2X 4V 8X 1V 4X 2V 1X 5V 2X 25V
   2X 3V 1X 6V 4X 2V 2X 22V 1X 7V 1X 2V 1X 2V 1X 2V 2X 1V 1X 5V 4X 2V 2X 3V 3X 1V 7X 4V 1X 1V 7X
   17V 10X 3V 1X 9V 1X 3V 1X 22V 1X 7V 1X 2V 1X 5V 2X 10V 1X 3V 1X 3V 2X 1V 15X 4V 2X 12V 7X 7V
   1X 3V 1X 8V 2X 2V 2X 22V 1X 7V 1X 2V 1X 5V 2X 9V 2X 2V 2X 3V 7X 3V 4X 2V 1X 5V 2X 18V 10X 2V
   1X 6V 3X 3V 1X 4V 3X 2V 1X 1V 1X 2V 3X 2V 3X 3V 3X 12V 4X 5V 3X 3V 1X 4V 2X 1V 6X 1V 14X 21V
   5X 13V 1X 3V 1X 23V 1X 16V 2X 9V 1X 3V 1X 4V 7X 2V 1X 3V 1X 2V 2X 4V 2X 10V 7X 22V 1X 3V 1X
   23V 1X 10V 1X 5V 2X 9V 1X 3V 1X 4V 7X 2V 5X 3V 1X 4V 2X 10V 1X 3V 12X 13V 1X 3V 1X 51V 1X 3V
   1X 6V 4X 16V 2X 26V 1X 3V 1X 18V 3X 24V 1X 9V 1X 1V 2X 7V 3X 1V 4X 6V 1X 1V 1X 8V 6X 10V 2X 3V
   12X 58V 4X 29V 37X 2V 1X 1V 1X 5V 1X 24V 1X 1V 1X 23V 2X 5V 1X 1V 1X 7V 1X 10V 2X 4V 32X 72V
   1X 36V 4X 39V 1X 36V 1X 15V 1X 13V 37X 198V 1X 1V 5X 1V 2X 143V 2I 232V 1X 4V 2X 7V 1X 1V 1X
   4V 2X 41V 1X 4V 2X 33V 1X 4V 2X 7V 1X 1V 1X 4V 2X 15V 1X 57V 1X 4V 2X 67V 2X 32V 3X 26V 6X 86V
   2X 6V 2X 640V 1X 28V 3X 89V 7X 22V 9X 24V 9X 20V 12X 13V 1X 3V 1X 2V 12X 52V 2I 40V 2X 10V 6X
   10V 6X 11V 5I 10V 6X 89V 7X 43V 5X 70V 10X 31V 1X 12V 4X 12V 4X 1V 3X 42V 2X 5V 11X 44V 4X 26V
   6X 11V 3X 62V 2X 65V 1X 29V 2X 11V 6X 10V 6X 14V 2X 46V 2X 12V 20X 77V 1X 166V 8X 60V 3X 15V
   3X 62V 5X 43V 2X 11V 8X 43V 5X 534V 2X 6V 2X 38V 2X 6V 2X 8V 1X 1V 1X 1V 1X 1V 1X 31V 2X 53V
   1X 15V 1X 14V 2X 6V 1X 19V 2X 3V 1X 9V 1X 11V 1I 2V 2X 20V 3X 1V 7X 49V 5I 5X 6I 2V 2X 27V 1X
   13V 3X 34V 14X 33V 15X 140V 4X 666V 22X 11V 21X 40V 20X 1752V 2X 382V 5X 45V 1X 1V 5X 1V 2X
   56V 7X 2V 14X 24V 9X 7V 1X 7V 1X 7V 1X 7V 1X 7V 1X 7V 1X 7V 1X 7V 1X 126V 34X 26V 1X 89V 12X
   214V 42X 64V 1X 86V 2X 103V 5X 43V 1X 51V 1I 42V 1X 86V 10X 47V 1X 418V 1X 4V 1X 16V 1X 28852V
   3X 55V 9X 348V 20X 184V 8X 221V 20X 60V 3X 10V 6X 56V 8X 70V 8X 12V 6X 116V 11X 30V 3X 78V 1X
   11V 4X 33V 1X 55V 9X 14V 2X 10V 2X 103V 24X 28V 10X 6V 2X 6V 2X 6V 9X 7V 1X 7V 1X 60V 4X 126V
   2X 10V 6X 11172V 12X 23V 4X 49V 8452X 366V 2X 106V 38X 7V 12X 5V 5X 26V 1X 5V 1X 1V 1X 2V 1X
   2V 1X 650V 32X 16V 16I 2V 1X 6V 7X 16V 1X 33V 2X 19V 1X 4V 4X 5V 1X 135V 2X 1I 1X 159V 1I 30V
   3X 6V 2X 6V 2X 6V 2X 3V 3X 7V 1X 7V 17X 12V 1X 26V 1X 19V 1X 2V 1X 15V 2X 14V 34X 123V 5X 3V
   4X 45V 3X 88V 1X 13V 3X 1V 47X 46V 130X 29V 3X 49V 15X 28V 4X 36V 9X 30V 5X 43V 5X 30V 1X 37V
   4X 14V 42X 158V 2X 10V 6X 36V 4X 36V 4X 40V 8X 52V 11X 12V 1X 15V 1X 7V 1X 2V 1X 11V 1X 15V 1X
   7V 1X 2V 3X 52V 12X 311V 9X 22V 10X 8V 24X 6V 1X 42V 1X 9V 69X 6V 2X 1V 1X 44V 1X 2V 3X 1V 2X
   23V 1X 72V 8X 9V 48X 19V 1X 2V 5X 33V 3X 27V 5X 27V 38X 56V 4X 20V 2X 50V 1X 2V 5X 8V 1X 3V 1X
   29V 2X 3V 4X 10V 7X 9V 7X 64V 32X 39V 4X 12V 9X 54V 3X 29V 2X 27V 5X 26V 7X 4V 12X 7V 80X 73V
   55X 51V 13X 51V 7X 46V 8X 10V 6X 38V 3X 29V 8X 2V 208X 31V 1X 42V 1X 3V 2X 2V 16X 6V 8X 9V 33X
   46V 8X 42V 22X 26V 38X 28V 20X 23V 9X 78V 4X 36V 9X 62V 1X 5V 13X 25V 7X 10V 6X 53V 1X 18V 8X
   39V 9X 96V 1X 20V 11X 18V 1X 47V 62X 7V 1X 1V 1X 4V 1X 15V 1X 11V 6X 59V 5X 10V 6X 4V 1X 8V 2X
   2V 2X 22V 1X 7V 1X 2V 1X 5V 1X 10V 2X 2V 2X 3V 2X 1V 6X 1V 5X 7V 2X 7V 3X 5V 11X 10V 1X 1V 2X
   1V 1X 38V 1X 10V 1X 1V 2X 1V 1X 4V 1X 10V 1X 2V 8X 2V 29X 92V 1X 5V 30X 72V 8X 10V 166X 54V 2X
   38V 34X 69V 11X 10V 6X 13V 19X 58V 6X 10V 6X 20V 28X 27V 2X 15V 4X 23V 185X 60V 100X 83V 12X
   8V 2X 1V 2X 8V 1X 2V 1X 30V 1X 2V 2X 12V 9X 10V 70X 8V 2X 46V 2X 11V 27X 72V 8X 83V 13X 73V 7X
   10V 86X 8V 88X 34V 14X 10V 6X 9V 1X 45V 1X 14V 10X 29V 3X 32V 2X 22V 1X 14V 73X 7V 1X 2V 1X
   44V 3X 1V 1X 2V 1X 9V 8X 10V 6X 6V 1X 2V 1X 37V 1X 2V 1X 6V 7X 10V 6X 44V 4X 10V 246X 25V 7X
   17V 1X 41V 3X 29V 85X 1V 15X 50V 13X 923V 102X 111V 1X 5V 11X 196V 2636X 99V 13X 1072V 16X 22V
   10X 3995V 5X 583V 6841X 58V 1734X 569V 7X 31V 1X 10V 4X 81V 1X 10V 6X 30V 2X 6V 10X 70V 10X
   10V 1X 7V 1X 21V 5X 19V 432X 58V 198X 91V 5X 25V 2X 25V 44X 75V 4X 57V 7X 17V 64X 5V 11X 7V 9X
   7382V 41X 32V 97X 115V 8701X 4V 1X 7V 1X 2V 1X 291V 15X 1V 29X 3V 2X 1V 14X 4V 8X 396V 2308X
   107V 5X 13V 3X 9V 7X 10V 2X 4V 4I 3932X 253V 3X 436V 6X 23V 15X 17V 15X 46V 2X 23V 9X 116V 60X
   246V 10X 39V 2X 74V 8I 112V 21X 70V 122X 20V 12X 20V 12X 87V 9X 25V 135X 85V 1X 71V 1X 2V 2X
   1V 2X 2V 2X 4V 1X 12V 1X 1V 1X 7V 1X 65V 1X 4V 2X 8V 1X 7V 1X 28V 1X 4V 1X 5V 1X 1V 3X 7V 1X
   340V 2X 292V 2X 702V 15X 5V 1X 15V 1104X 31V 6X 6V 213X 7V 1X 17V 2X 7V 1X 2V 1X 5V 5X 62V 33X
   1V 112X 45V 3X 14V 2X 10V 4X 2V 320X 31V 17X 58V 5X 1V 464X 42V 214X 43V 4X 1V 192X 31V 1X 22V
   8X 2V 224X 7V 1X 4V 1X 2V 1X 15V 1X 197V 2X 16V 41X 76V 4X 10V 4X 2V 785X 68V 76X 61V 194X 4V
   1X 27V 1X 2V 1X 1V 2X 1V 1X 10V 1X 4V 1X 1V 1X 1V 6X 1V 4X 1V 1X 1V 1X 1V 1X 3V 1X 2V 1X 1V 2X
   1V 1X 1V 1X 1V 1X 1V 1X 1V 1X 2V 1X 1V 2X 4V 1X 7V 1X 4V 1X 4V 1X 1V 1X 10V 1X 17V 5X 3V 1X 5V
   1X 17V 52X 2V 270X 44V 4X 100V 12X 15V 2X 15V 1X 15V 1X 37V 11X 173V 56X 29V 13X 44V 4X 9V 7X
   2V 14X 6V 154X 985V 3X 17V 3X 13V 3X 218V 6X 12V 4X 1V 15X 12V 4X 56V 8X 10V 6X 40V 8X 30V 2X
   12V 4X 2V 14X 9V 39X 344V 8X 14V 2X 13V 3X 11V 3X 57V 1X 1V 4X 16V 2X 12V 4X 10V 7X 147V 1X
   103V 1029X 42720V 32X 4382V 2X 5774V 2X 7473V 15X 622V 2466X 542V 1506X 4939V 5X 8490V 707718X
   240I 196112X"

/-- Characters that are replaced by others than their small letters. -/
def replacementCode : String :=
  "160:32 168:32.776 170:97 175:32.772 178:50*2,32.769,956 184:32.807,49,111
   188:49.8260.52,49.8260.50,51.8260.52 306:105.106,105.106 319:108.183,108.183 329:700.110
   383:115 452:100.382,100.382,100.382,108.106,108.106,108.106,110.106,110.106,110.106
   497:100.122,100.122,100.122 688:104,614,106,114,633,635,641,119,121
   728:32.774,32.775,32.778,32.808,32.771,32.779 736:611,108,115,120,661 837:953 890:32.953
   900:32.769,32.776.769 976:946,952,965,973,971,966,960 1008:954,961,963 1013:949 1017:963
   1415:1381.1410 1653:1575.1652,1608.1652,1735.1652,1610.1652 3635:3661.3634 3763:3789.3762
   3804:3755.3737,3755.3745 3852:3851 3959:4018.3953.3968 3961:4019.3953.3968 4348:4316
   5024:5024*86 5112:5104*6 7296:1074,1076,1086,1089*2,1090,1098,1123,42571 7468:97,230,98
   7472:100*2,477,103*8 7484:111,547,112,114,116*2,119,97,592*2,7426,98,100*2,601,603*2,103
   7503:107,109,331,111,596,7446*2,112,116*2,7453,623,118,7461,946*3,966*2,105,114,117*2
   7526:946*2,961,966*2 7544:1085
   7579:594,99,597,240,604,102,607,609,613,616*3,7547,669,621,7557,671,625,624,626*4,632
   7603:642*2,427,649*2,7452,651*2,122,656*3,952 7834:97.702,7777
   8064:7936.953,7937.953,7938.953,7939.953,7940.953,7941.953,7942.953,7943.953,7936.953
   8073:7937.953,7938.953,7939.953,7940.953,7941.953,7942.953,7943.953,7968.953,7969.953
   8082:7970.953,7971.953,7972.953,7973.953,7974.953,7975.953,7968.953,7969.953,7970.953
   8091:7971.953,7972.953,7973.953,7974.953,7975.953,8032.953,8033.953,8034.953,8035.953
   8100:8036.953,8037.953,8038.953,8039.953,8032.953,8033.953,8034.953,8035.953,8036.953
   8109:8037.953,8038.953,8039.953 8114:8048.953,945.953,940.953 8119:8118.953
   8123:940,945.953,32.787 8127:32.787,32.834,32.776.834,8052.953,951.953,942.953 8135:8134.953
   8137:941 8139:942,951.953,32.787.768,32.787.769,32.787.834 8155:943
   8157:32.788.768,32.788.769,32.788.834 8171:973 8173:32.776.768,32.776.769
   8178:8060.953,969.953,974.953 8183:8182.953 8185:972 8187:974,969.953,32.769,32.788
   8192:32,32,32,32,32,32,32,32,32,32,32 8209:8208 8215:32.819 8239:32
   8243:8242.8242,8242.8242.8242 8246:8245.8245,8245.8245.8245 8252:33.33 8254:32.773
   8263:63.63,63.33,33.63 8279:8242.8242.8242.8242 8287:32 8304:48,105
   8308:52*6,43,8722,61,40*2,110,48*10,43,8722,61,40*2
   8336:97,101,111,120,601,104,107*4,112,115*2 8360:114.115 8448:97.47.99,97.47.115,99,176.99
   8453:99.47.111,99.47.117,603 8457:176.102,103*2,104,104,104,295,105,105,108,108
   8469:110,110.111 8473:112*3,114,114 8480:115.109,116.101.108,116.109 8484:122 8488:122
   8492:98*2 8495:101,101*2 8499:109,111,1488*4,105 8507:102.97.120,960,947,947,960,8721
   8517:100,100*2,105*2
   8528:49.8260.55,49.8260.57,49.8260.49.48,49.8260.51,50.8260.51,49.8260.53,50.8260.53
   8535:51.8260.53,52.8260.53,49.8260.54,53.8260.54,49.8260.56,51.8260.56,53.8260.56
   8542:55.8260.56,49.8260,105,105.105,105.105.105,105.118,118,118.105,118.105.105
   8551:118.105.105.105,105.120,120,120.105,120.105.105,108,99*2,109,105,105.105
   8562:105.105.105,105.118,118,118.105,118.105.105,118.105.105.105,105.120,120,120.105
   8571:120.105.105,108,99*2,109 8585:48.8260.51 8748:8747.8747,8747.8747.8747
   8751:8750.8750,8750.8750.8750
   9312:49*9,49.48,49.49,49.50,49.51,49.52,49.53,49.54,49.55,49.56,49.57,50.48,40.49.41
   9333:40.50.41,40.51.41,40.52.41,40.53.41,40.54.41,40.55.41,40.56.41,40.57.41,40.49.48.41
   9342:40.49.49.41,40.49.50.41,40.49.51.41,40.49.52.41,40.49.53.41,40.49.54.41,40.49.55.41
   9349:40.49.56.41,40.49.57.41,40.50.48.41
   9372:40.97.41,40.98.41,40.99.41,40.100.41,40.101.41,40.102.41,40.103.41,40.104.41
   9380:40.105.41,40.106.41,40.107.41,40.108.41,40.109.41,40.110.41,40.111.41,40.112.41
   9388:40.113.41,40.114.41,40.115.41,40.116.41,40.117.41,40.118.41,40.119.41,40.120.41
   9396:40.121.41,40.122.41,97*26,97*26,48 10764:8747.8747.8747.8747
   10868:58.58.61,61.61,61.61.61 11388:106,118 11631:11617 11935:27597 12019:40863
   12032:19968,20008,20022,20031,20057,20101,20108,20128,20154,20799,20837,20843,20866
   12045:20886,20907,20960,20981,20992,21147,21241,21269,21274,21304,21313,21340,21353
   12058:21378,21430,21448,21475,22231,22303,22763,22786,22794,22805,22823,22899,23376
   12071:23424,23544,23567,23586,23608,23662,23665,24027,24037,24049,24062,24178,24186
   12084:24191,24308,24318,24331,24339,24400,24417,24435,24515,25096,25142,25163,25903
   12097:25908,25991,26007,26020,26041,26080,26085,26352,26376,26408,27424,27490,27513
   12110:27571,27595,27604,27611,27663,27668,27700,28779,29226,29238,29243,29247,29255
   12123:29273,29275,29356,29572,29577,29916,29926,29976,29983,29992,30000,30091,30098
   12136:30326,30333,30382,30399,30446,30683,30690,30707,31034,31160,31166,31348,31435
   12149:31481,31859,31992,32566,32593,32650,32701,32769,32780,32786,32819,32895,32905
   12162:33251,33258,33267,33276,33292,33307,33311,33390,33394,33400,34381,34411,34880
   12175:34892,34915,35198,35211,35282,35328,35895,35910,35925,35960,35997,36196,36208
   12188:36275,36523,36554,36763,36784,36789,37009,37193,37318,37324,37329,38263,38272
   12201:38428,38582,38585,38632,38737,38750,38754,38761,38859,38893,38899,38913,39080
   12214:39131,39135,39318,39321,39340,39592,39640,39647,39717,39727,39730,39740,39770
   12227:40165,40565,40575,40613,40635,40643,40653,40657,40697,40701,40718,40723,40736
   12240:40763,40778,40786,40845,40860,40864 12288:32 12290:46 12342:12306 12344:21313,21316*2
   12443:32.12441,32.12442 12447:12424.12426 12543:12467.12488
   12593:4352*2,4522,4354,4524*2,4355*3,4528*6,4378,4358*3,4385,4361*10,4449*21
   12645:4372*2,4551*2,4556,4558,4563,4567,4569,4380,4573,4575,4381*2,4384,4386*2,4391,4393
   12664:4395*5,4402,4406,4416,4423,4428,4593*2,4439*3,4484*2,4488,4497*2,4500,4510,4513
   12690:19968,20108,19977,22235,19978,20013,19979,30002,20057,19993,19969,22825,22320
   12703:20154 12800:40.4352.41,40.4354.41,40.4355.41,40.4357.41,40.4358.41,40.4359.41,40.4361.41
   12807:40.4363.41,40.4364.41,40.4366.41,40.4367.41,40.4368.41,40.4369.41,40.4370.41
   12814:40.44032.41,40.45208.41,40.45796.41,40.46972.41,40.47560.41,40.48148.41
   12820:40.49324.41,40.50500.41,40.51088.41,40.52264.41,40.52852.41,40.53440.41
   12826:40.54028.41,40.54616.41,40.51452.41,40.50724.51204.41,40.50724.54980.41
   12832:40.19968.41,40.20108.41,40.19977.41,40.22235.41,40.20116.41,40.20845.41
   12838:40.19971.41,40.20843.41,40.20061.41,40.21313.41,40.26376.41,40.28779.41
   12844:40.27700.41,40.26408.41,40.37329.41,40.22303.41,40.26085.41,40.26666.41
   12850:40.26377.41,40.31038.41,40.21517.41,40.29305.41,40.36001.41,40.31069.41
   12856:40.21172.41,40.20195.41,40.21628.41,40.23398.41,40.30435.41,40.20225.41
   12862:40.36039.41,40.21332.41,40.31085.41,40.20241.41,40.33258.41,40.33267.41,21839
   12869:24188,25991,31631
   12880:112.116.101,50.49,50.50,50.51,50.52,50.53,50.54,50.55,50.56,50.57,51.48,51.49
   12892:51.50,51.51,51.52,51.53,4352,4354*2,4357*3,4361,4363*2,4366*5,44032,45208,45796
   12913:46972,47560,48148,49324,50500,51088,52264,52852,53440,54028,54616,52280.44256
   12925:51452.51032,50864
   12928:19968,20108,19977,22235,20116,20845,19971,20843,20061,21313,26376,28779,27700
   12941:26408,37329,22303,26085,26666,26377,31038,21517,29305,36001,31069,21172,31192
   12954:30007,22899,36969,20778,21360,27880,38917,20241,20889,27491,19978,20013,19979
   12967:24038,21491,21307,23447,23398,30435,20225,36039,21332,22812,51.54,51.55,51.56
   12980:51.57,52.48,52.49,52.50,52.51,52.52,52.53,52.54,52.55,52.56,52.57,53.48,49.26376
   12993:50.26376,51.26376,52.26376,53.26376,54.26376,55.26376,56.26376,57.26376
   13001:49.48.26376,49.49.26376,49.50.26376,104.103,101.114.103,101.118,108.116.100,12450
   13009:12452,12454,12456,12458*2,12461,12463,12465,12467,12469,12471,12473,12475,12477
   13023:12479,12481,12484,12486,12488,12490*6,12498,12501,12504,12507,12510*5,12516,12518
   13045:12520*6,12527*4,20196.21644,12450.12497.12540.12488,12450.12523.12501.12449
   13058:12450.12531.12506.12450,12450.12540.12523,12452.12491.12531.12464
   13061:12452.12531.12481,12454.12457.12531,12456.12473.12463.12540.12489
   13064:12456.12540.12459.12540,12458.12531.12473,12458.12540.12512,12459.12452.12522
   13068:12459.12521.12483.12488,12459.12525.12522.12540,12460.12525.12531
   13071:12460.12531.12510,12462.12460,12462.12491.12540,12461.12517.12522.12540
   13075:12462.12523.12480.12540,12461.12525,12461.12525.12464.12521.12512
   13078:12461.12525.12513.12540.12488.12523,12461.12525.12527.12483.12488
   13080:12464.12521.12512,12464.12521.12512.12488.12531,12463.12523.12476.12452.12525
   13083:12463.12525.12540.12493,12465.12540.12473,12467.12523.12490,12467.12540.12509
   13087:12469.12452.12463.12523,12469.12531.12481.12540.12512,12471.12522.12531.12464
   13090:12475.12531.12481,12475.12531.12488,12480.12540.12473,12487.12471,12489.12523
   13095:12488.12531,12490.12494,12494.12483.12488,12495.12452.12484
   13099:12497.12540.12475.12531.12488,12497.12540.12484,12496.12540.12524.12523
   13102:12500.12450.12473.12488.12523,12500.12463.12523,12500.12467,12499.12523
   13106:12501.12449.12521.12483.12489,12501.12451.12540.12488
   13108:12502.12483.12471.12455.12523,12501.12521.12531,12504.12463.12479.12540.12523
   13111:12506.12477,12506.12491.12498,12504.12523.12484,12506.12531.12473
   13115:12506.12540.12472,12505.12540.12479,12509.12452.12531.12488,12508.12523.12488
   13119:12507.12531,12509.12531.12489,12507.12540.12523,12507.12540.12531
   13123:12510.12452.12463.12525,12510.12452.12523,12510.12483.12495,12510.12523.12463
   13127:12510.12531.12471.12519.12531,12511.12463.12525.12531,12511.12522
   13130:12511.12522.12496.12540.12523,12513.12460,12513.12460.12488.12531
   13133:12513.12540.12488.12523,12516.12540.12489,12516.12540.12523,12518.12450.12531
   13137:12522.12483.12488.12523,12522.12521,12523.12500.12540,12523.12540.12502.12523
   13141:12524.12512,12524.12531.12488.12466.12531,12527.12483.12488,48.28857,49.28857
   13146:50.28857,51.28857,52.28857,53.28857,54.28857,55.28857,56.28857,57.28857
   13154:49.48.28857,49.49.28857,49.50.28857,49.51.28857,49.52.28857,49.53.28857
   13160:49.54.28857,49.55.28857,49.56.28857,49.57.28857,50.48.28857,50.49.28857
   13166:50.50.28857,50.51.28857,50.52.28857,104.112.97,100.97,97.117,98.97.114,111.118
   13174:112.99,100.109,100.109.50,100.109.51,105.117,24179.25104,26157.21644,22823.27491
   13182:26126.27835,26666.24335.20250.31038,112.97,110.97,956.97,109.97,107.97,107.98
   13190:109.98,103.98,99.97.108,107.99.97.108,112.102,110.102,956.102,956.103,109.103
   13199:107.103,104.122,107.104.122,109.104.122,103.104.122,116.104.122,956.108,109.108
   13207:100.108,107.108,102.109,110.109,956.109,109.109,99.109,107.109,109.109.50
   13216:99.109.50,109.50,107.109.50,109.109.51,99.109.51,109.51,107.109.51,109.8725.115
   13224:109.8725.115.50,112.97,107.112.97,109.112.97,103.112.97,114.97.100
   13230:114.97.100.8725.115,114.97.100.8725.115.50,112.115,110.115,956.115,109.115,112.118
   13237:110.118,956.118,109.118,107.118,109.118,112.119,110.119,956.119,109.119,107.119
   13247:109.119,107.969,109.969 13251:98.113,99.99,99.100,99.8725.107.103
   13256:100.98,103.121,104.97,104.112,105.110,107.107,107.109,107.116,108.109,108.110
   13266:108.111.103,108.120,109.98,109.105.108,109.111.108,112.104
   13273:112.112.109,112.114,115.114,115.118,119.98,118.8725.109,97.8725.109,49.26085
   13281:50.26085,51.26085,52.26085,53.26085,54.26085,55.26085,56.26085,57.26085
   13289:49.48.26085,49.49.26085,49.50.26085,49.51.26085,49.52.26085,49.53.26085
   13295:49.54.26085,49.55.26085,49.56.26085,49.57.26085,50.48.26085,50.49.26085
   13301:50.50.26085,50.51.26085,50.52.26085,50.53.26085,50.54.26085,50.55.26085
   13307:50.56.26085,50.57.26085,51.48.26085,51.49.26085,103.97.108 42652:1098,1100 42864:42863
   42993:115,99,102,113 43000:295,339 43868:42791,43831,619,43858 43881:653 43888:5024*80
   64256:102.102,102.105,102.108,102.102.105,102.102.108,115.116,115.116
   64275:1396.1398,1396.1381,1396.1387,1406.1398,1396.1389
   64288:1506,1488,1491*2,1499*3,1512,1514,43
   64335:1488.1500,1649,1649,1659,1659,1659,1659,1662,1662,1662,1662,1664,1664,1664,1664
   64350:1658,1658,1658,1658,1663,1663,1663,1663,1657,1657,1657,1657,1700,1700,1700,1700
   64366:1702,1702,1702,1702,1668,1668,1668,1668,1667,1667,1667,1667,1670,1670,1670,1670*2
   64383:1671,1671,1671,1677,1677,1676,1676,1678,1678,1672,1672,1688,1688,1681,1681,1705
   64399:1705,1705,1705,1711,1711,1711,1711,1715,1715,1715,1715,1713,1713,1713,1713,1722
   64415:1722*2,1723,1723,1723,1728,1728*2,1729,1729,1729,1726,1726,1726,1726,1746,1746*2
   64433:1747
   64467:1709,1709,1709,1709,1735,1735,1734,1734,1736,1736,1735.1652,1739,1739,1733,1733
   64482:1737,1737,1744,1744,1744,1744,1609,1609,1574.1575,1574.1575,1574.1749,1574.1749
   64494:1574.1608,1574.1608,1574.1735,1574.1735,1574.1734,1574.1734,1574.1736,1574.1736
   64502:1574.1744,1574.1744,1574.1744,1574.1609,1574.1609,1574.1609,1740,1740,1740,1740
   64512:1574.1580,1574.1581,1574.1605,1574.1609,1574.1610,1576.1580,1576.1581,1576.1582
   64520:1576.1605,1576.1609,1576.1610,1578.1580,1578.1581,1578.1582,1578.1605,1578.1609
   64528:1578.1610,1579.1580,1579.1605,1579.1609,1579.1610,1580.1581,1580.1605,1581.1580
   64536:1581.1605,1582.1580,1582.1581,1582.1605,1587.1580,1587.1581,1587.1582,1587.1605
   64544:1589.1581,1589.1605,1590.1580,1590.1581,1590.1582,1590.1605,1591.1581,1591.1605
   64552:1592.1605,1593.1580,1593.1605,1594.1580,1594.1605,1601.1580,1601.1581,1601.1582
   64560:1601.1605,1601.1609,1601.1610,1602.1581,1602.1605,1602.1609,1602.1610,1603.1575
   64568:1603.1580,1603.1581,1603.1582,1603.1604,1603.1605,1603.1609,1603.1610,1604.1580
   64576:1604.1581,1604.1582,1604.1605,1604.1609,1604.1610,1605.1580,1605.1581,1605.1582
   64584:1605.1605,1605.1609,1605.1610,1606.1580,1606.1581,1606.1582,1606.1605,1606.1609
   64592:1606.1610,1607.1580,1607.1605,1607.1609,1607.1610,1610.1580,1610.1581,1610.1582
   64600:1610.1605,1610.1609,1610.1610,1584.1648,1585.1648,1609.1648,32.1612.1617
   64607:32.1613.1617,32.1614.1617,32.1615.1617,32.1616.1617,32.1617.1648,1574.1585
   64613:1574.1586,1574.1605,1574.1606,1574.1609,1574.1610,1576.1585,1576.1586,1576.1605
   64621:1576.1606,1576.1609,1576.1610,1578.1585,1578.1586,1578.1605,1578.1606,1578.1609
   64629:1578.1610,1579.1585,1579.1586,1579.1605,1579.1606,1579.1609,1579.1610,1601.1609
   64637:1601.1610,1602.1609,1602.1610,1603.1575,1603.1604,1603.1605,1603.1609,1603.1610
   64645:1604.1605,1604.1609,1604.1610,1605.1575,1605.1605,1606.1585,1606.1586,1606.1605
   64653:1606.1606,1606.1609,1606.1610,1609.1648,1610.1585,1610.1586,1610.1605,1610.1606
   64661:1610.1609,1610.1610,1574.1580,1574.1581,1574.1582,1574.1605,1574.1607,1576.1580
   64669:1576.1581,1576.1582,1576.1605,1576.1607,1578.1580,1578.1581,1578.1582,1578.1605
   64677:1578.1607,1579.1605,1580.1581,1580.1605,1581.1580,1581.1605,1582.1580,1582.1605
   64685:1587.1580,1587.1581,1587.1582,1587.1605,1589.1581,1589.1582,1589.1605,1590.1580
   64693:1590.1581,1590.1582,1590.1605,1591.1581,1592.1605,1593.1580,1593.1605,1594.1580
   64701:1594.1605,1601.1580,1601.1581,1601.1582,1601.1605,1602.1581,1602.1605,1603.1580
   64709:1603.1581,1603.1582,1603.1604,1603.1605,1604.1580,1604.1581,1604.1582,1604.1605
   64717:1604.1607,1605.1580,1605.1581,1605.1582,1605.1605,1606.1580,1606.1581,1606.1582
   64725:1606.1605,1606.1607,1607.1580,1607.1605,1607.1648,1610.1580,1610.1581,1610.1582
   64733:1610.1605,1610.1607,1574.1605,1574.1607,1576.1605,1576.1607,1578.1605,1578.1607
   64741:1579.1605,1579.1607,1587.1605,1587.1607,1588.1605,1588.1607,1603.1604,1603.1605
   64749:1604.1605,1606.1605,1606.1607,1610.1605,1610.1607,1600.1614.1617,1600.1615.1617
   64756:1600.1616.1617,1591.1609,1591.1610,1593.1609,1593.1610,1594.1609,1594.1610
   64763:1587.1609,1587.1610,1588.1609,1588.1610,1581.1609,1581.1610,1580.1609,1580.1610
   64771:1582.1609,1582.1610,1589.1609,1589.1610,1590.1609,1590.1610,1588.1580,1588.1581
   64779:1588.1582,1588.1605,1588.1585,1587.1585,1589.1585,1590.1585,1591.1609,1591.1610
   64787:1593.1609,1593.1610,1594.1609,1594.1610,1587.1609,1587.1610,1588.1609,1588.1610
   64795:1581.1609,1581.1610,1580.1609,1580.1610,1582.1609,1582.1610,1589.1609,1589.1610
   64803:1590.1609,1590.1610,1588.1580,1588.1581,1588.1582,1588.1605,1588.1585,1587.1585
   64811:1589.1585,1590.1585,1588.1580,1588.1581,1588.1582,1588.1605,1587.1607,1588.1607
   64819:1591.1605,1587.1580,1587.1581,1587.1582,1588.1580,1588.1581,1588.1582,1591.1605
   64827:1592.1605,1575.1611,1575.1611
   64848:1578.1580.1605,1578.1581.1580,1578.1581.1580,1578.1581.1605,1578.1582.1605
   64853:1578.1605.1580,1578.1605.1581,1578.1605.1582,1580.1605.1581,1580.1605.1581
   64858:1581.1605.1610,1581.1605.1609,1587.1581.1580,1587.1580.1581,1587.1580.1609
   64863:1587.1605.1581,1587.1605.1581,1587.1605.1580,1587.1605.1605,1587.1605.1605
   64868:1589.1581.1581,1589.1581.1581,1589.1605.1605,1588.1581.1605,1588.1581.1605
   64873:1588.1580.1610,1588.1605.1582,1588.1605.1582,1588.1605.1605,1588.1605.1605
   64878:1590.1581.1609,1590.1582.1605,1590.1582.1605,1591.1605.1581,1591.1605.1581
   64883:1591.1605.1605,1591.1605.1610,1593.1580.1605,1593.1605.1605,1593.1605.1605
   64888:1593.1605.1609,1594.1605.1605,1594.1605.1610,1594.1605.1609,1601.1582.1605
   64893:1601.1582.1605,1602.1605.1581,1602.1605.1605,1604.1581.1605,1604.1581.1610
   64898:1604.1581.1609,1604.1580.1580,1604.1580.1580,1604.1582.1605,1604.1582.1605
   64903:1604.1605.1581,1604.1605.1581,1605.1581.1580,1605.1581.1605,1605.1581.1610
   64908:1605.1580.1581,1605.1580.1605,1605.1582.1580,1605.1582.1605
   64914:1605.1580.1582,1607.1605.1580,1607.1605.1605,1606.1581.1605,1606.1581.1609
   64919:1606.1580.1605,1606.1580.1605,1606.1580.1609,1606.1605.1610,1606.1605.1609
   64924:1610.1605.1605,1610.1605.1605,1576.1582.1610,1578.1580.1610,1578.1580.1609
   64929:1578.1582.1610,1578.1582.1609,1578.1605.1610,1578.1605.1609,1580.1605.1610
   64934:1580.1581.1609,1580.1605.1609,1587.1582.1609,1589.1581.1610,1588.1581.1610
   64939:1590.1581.1610,1604.1580.1610,1604.1605.1610,1610.1581.1610,1610.1580.1610
   64944:1610.1605.1610,1605.1605.1610,1602.1605.1610,1606.1581.1610,1602.1605.1581
   64949:1604.1581.1605,1593.1605.1610,1603.1605.1610,1606.1580.1581,1605.1582.1610
   64954:1604.1580.1605,1603.1605.1605,1604.1580.1605,1606.1580.1581,1580.1581.1610
   64959:1581.1580.1610,1605.1580.1610,1601.1605.1610,1576.1581.1610,1603.1605.1605
   64964:1593.1580.1605,1589.1605.1605,1587.1582.1610,1606.1580.1610
   65008:1589.1604.1746,1602.1604.1746,1575.1604.1604.1607,1575.1603.1576.1585
   65012:1605.1581.1605.1583,1589.1604.1593.1605,1585.1587.1608.1604,1593.1604.1610.1607
   65016:1608.1587.1604.1605,1589.1604.1609
   65018:1589.1604.1609.32.1575.1604.1604.1607.32.1593.1604.1610.1607.32.1608.1587.1604.1605
   65019:1580.1604.32.1580.1604.1575.1604.1607,1585.1740.1575.1604 65040:44,12289
   65043:58*2,33,63,12310*2
   65073:8212,8211,95,95,40*2,123,125,12308*2,12304*2,12298*2,12296*2,12300*4
   65095:91,93,32.773,32.773,32.773,32.773,95,95,95,44,12289
   65108:59,58,63,33,8212,40*2,123,125,12308*2,35,38,42*2,45,60,62,61 65128:92,36*2,64
   65136:32.1611,1600.1611,32.1612 65140:32.1613
   65142:32.1614,1600.1614,32.1615,1600.1615,32.1616,1600.1616,32.1617,1600.1617,32.1618
   65151:1600.1618,1569*2,1570*2,1571*2,1572*2,1573*2,1574,1574,1574*2,1575*2,1576,1576
   65170:1576*2,1577*2,1578,1578,1578*2,1579,1579,1579*2,1580,1580,1580*2,1581,1581,1581*2
   65190:1582,1582,1582*2,1583*2,1584*2,1585*2,1586*2,1587,1587,1587*2,1588,1588,1588*2
   65210:1589,1589,1589*2,1590,1590,1590*2,1591,1591,1591*2,1592,1592,1592*2,1593,1593
   65228:1593*2,1594,1594,1594,1601,1601,1601,1601*2,1602,1602,1602*2,1603,1603,1603*2,1604
   65247:1604,1604*2,1605,1605,1605*2,1606,1606,1606*2,1607,1607,1607*2,1608*2,1609*2,1610
   65267:1610,1610,1604.1570,1604.1570,1604.1571,1604.1571,1604.1573,1604.1573,1604.1575
   65276:1604.1575
   65281:33*32,97*26,91*36,10629*2,46,12300*2,12289,12539,12530,12449,12451,12453,12455
   65387:12457,12515,12517,12519,12483,12540,12450,12452,12454,12456,12458*2,12461,12463
   65401:12465,12467,12469,12471,12473,12475,12477,12479,12481,12484,12486,12488,12490*6
   65419:12498,12501,12504,12507,12510*5,12516,12518,12520*6,12527,12531,12441*2
   65441:4352*2,4522,4354,4524*2,4355*3,4528*6,4378,4358*3,4385,4361*10 65474:4449*6 65482:4455*6
   65490:4461*6 65498:4467*3 65504:162*2,172,32.772,166,165,8361 65512:9474,8592*4,9632,9675
   67457:720*2,230,665,595
   67463:675,43878,677,676,598*2,7569,600,606,681,612,610,608,667,295,668,615,644,682*2,620
   67484:122628,42894,622,122629,654,122630,248,630*2,113,634,122632,637*2,640,680,678
   67501:43879,679,648,11377 67506:655,673*2,664,448*3,122634,122654 117974:97*26,48*10
   119808:97*26,97*26,97*26,97*7 119894:105*18,97*26,97*26,97 119966:99*2 119970:103 119973:106*2
   119977:110*4 119982:115*8,97*4 119995:102 119997:104*7 120005:112*11,97*26,97*26,97*2
   120071:100*4 120077:106*8 120086:115*7 120094:97*26,97*2 120123:100*4 120128:105*5 120134:111
   120138:115*7
   120146:97*26,97*26,97*26,97*26,97*26,97*26,97*26,97*26,97*26,97*26,97*26,97*26,97*26,305
   120485:567
   120488:945*17,952,963*7,8711,945*17,963,963*7,8706,949,952,954,966,961,960,945*17,952
   120564:963*7,8711,945*17,963,963*7,8706,949,952,954,966,961,960,945*17,952,963*7,8711
   120630:945*17,963,963*7,8706,949,952,954,966,961,960,945*17,952,963*7,8711,945*17,963
   120706:963*7,8706,949,952,954,966,961,960,945*17,952,963*7,8711,945*17,963,963*7,8706
   120772:949,952,954,966,961,960,989,989 120782:48*10,48*10,48*10,48*10,48*10
   122928:1072*9,1082*3,1086*11,1099,1101*2,42633,1241,1110,1112,1257,1199,1231,1072*9
   122970:1082*2,1086*2,1089,1091*6,1098*2,1169,1110,1109,1119,1195,42577,1201
   126464:1575*2,1580,1583
   126469:1608,1586,1581,1591,1610,1603*4,1587,1593,1601,1589,1602,1585,1588,1578*2,1582
   126488:1584,1590,1592,1594,1646,1722,1697,1647 126497:1576,1580 126500:1607 126503:1581
   126505:1610,1603*4,1587,1593,1601,1589,1602 126516:1588,1578*2,1582 126521:1590 126523:1594
   126530:1580 126535:1581 126537:1610 126539:1604 126541:1606,1587,1593 126545:1589,1602
   126548:1588 126551:1582 126553:1590 126555:1594 126557:1722 126559:1647 126561:1576,1580
   126564:1607 126567:1581,1591,1610,1603 126572:1605*2,1587,1593,1601,1589,1602
   126580:1588,1578*2,1582 126585:1590,1592,1594,1646 126590:1697
   126592:1575*2,1580,1583,1607*2,1586,1581,1591,1610
   126603:1604*3,1587,1593,1601,1589,1602,1585,1588,1578*2,1582,1584,1590,1592,1594
   126625:1576,1580,1583 126629:1608,1586,1581,1591,1610
   126635:1604*3,1587,1593,1601,1589,1602,1585,1588,1578*2,1582,1584,1590,1592,1594
   127233:48.44,49.44,50.44,51.44,52.44,53.44,54.44,55.44,56.44,57.44
   127248:40.97.41,40.98.41,40.99.41,40.100.41,40.101.41,40.102.41,40.103.41,40.104.41
   127256:40.105.41,40.106.41,40.107.41,40.108.41,40.109.41,40.110.41,40.111.41,40.112.41
   127264:40.113.41,40.114.41,40.115.41,40.116.41,40.117.41,40.118.41,40.119.41,40.120.41
   127272:40.121.41,40.122.41,12308.115.12309,99,114,99.100,119.122
   127280:97*26,104.118,109.118,115.100,115.115,112.112.118,119.99 127338:109.99,109.100,109.114
   127376:100.106 127488:12411.12363,12467.12467,12469
   127504:25163,23383,21452,12487,20108,22810,35299,22825,20132,26144,28961,26009,21069
   127517:24460,20877,26032,21021,32066,29983,36009,22768,21561,28436,25237,25429,19968
   127530:19977,36938,24038,20013,21491,25351,36208,25171,31105,31354,21512,28288,26377
   127543:26376,30003,21106,21942,37197
   127552:12308.26412.12309,12308.19977.12309,12308.20108.12309,12308.23433.12309
   127556:12308.28857.12309,12308.25171.12309,12308.30423.12309,12308.21213.12309
   127560:12308.25943.12309 127568:24471,21487 130032:48*10"

/-- The status of each character. -/
def statuses : CharacterProperty NameStatus := .ofCode NameStatus.ofMark statusCode

/-- The status of a character. -/
def nameStatus (c : Char) : NameStatus := (statuses.value? c).getD .refused

/-- The characters that are replaced, with what they are replaced by. -/
def replacements : List (Char × List Char) := imagesOfCode replacementCode

end AssemblerIndex.Uri
