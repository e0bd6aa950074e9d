import AssemblerIndex.Text.Coded

/-!
# Decomposition of characters

A character may stand for others: a letter with its marks, or a variant for the usual character.
Some of these characters are the usual way to write what they stand for, the others are not.
-/

namespace AssemblerIndex.Text

/-- Characters that are preferred to the sequence that they stand for. -/
def compositeCode : String :=
  "192:65.768,65.769,65.770,65.771,65.776,65.778
   199:67.807,69.768,69.769,69.770,69.776,73.768,73.769,73.770,73.776
   209:78.771,79.768,79.769,79.770,79.771,79.776 217:85.768,85.769,85.770,85.776,89.769
   224:97.768,97.769,97.770,97.771,97.776,97.778
   231:99.807,101.768,101.769,101.770,101.776,105.768,105.769,105.770,105.776
   241:110.771,111.768,111.769,111.770,111.771,111.776
   249:117.768,117.769,117.770,117.776,121.769
   255:121.776,65.772,97.772,65.774,97.774,65.808,97.808,67.769,99.769,67.770,99.770,67.775
   267:99.775,67.780,99.780,68.780,100.780
   274:69.772,101.772,69.774,101.774,69.775,101.775,69.808,101.808,69.780,101.780,71.770
   285:103.770,71.774,103.774,71.775,103.775,71.807,103.807,72.770,104.770
   296:73.771,105.771,73.772,105.772,73.774,105.774,73.808,105.808,73.775
   308:74.770,106.770,75.807,107.807 313:76.769,108.769,76.807,108.807,76.780,108.780
   323:78.769,110.769,78.807,110.807,78.780,110.780
   332:79.772,111.772,79.774,111.774,79.779,111.779
   340:82.769,114.769,82.807,114.807,82.780,114.780,83.769,115.769,83.770,115.770,83.807
   351:115.807,83.780,115.780,84.807,116.807,84.780,116.780
   360:85.771,117.771,85.772,117.772,85.774,117.774,85.778,117.778,85.779,117.779,85.808
   371:117.808,87.770,119.770,89.770,121.770,89.776,90.769,122.769,90.775,122.775,90.780
   382:122.780 416:79.795,111.795 431:85.795,117.795
   461:65.780,97.780,73.780,105.780,79.780,111.780,85.780,117.780,85.776.772,117.776.772
   471:85.776.769,117.776.769,85.776.780,117.776.780,85.776.768,117.776.768
   478:65.776.772,97.776.772,65.775.772,97.775.772,198.772,230.772
   486:71.780,103.780,75.780,107.780,79.808,111.808,79.808.772,111.808.772,439.780,658.780
   496:106.780 500:71.769,103.769
   504:78.768,110.768,65.778.769,97.778.769,198.769,230.769,216.769,248.769,65.783,97.783
   514:65.785,97.785,69.783,101.783,69.785,101.785,73.783,105.783,73.785,105.785,79.783
   525:111.783,79.785,111.785,82.783,114.783,82.785,114.785,85.783,117.783,85.785,117.785
   536:83.806,115.806,84.806,116.806 542:72.780,104.780
   550:65.775,97.775,69.807,101.807,79.776.772,111.776.772,79.771.772,111.771.772,79.775
   559:111.775,79.775.772,111.775.772,89.772,121.772 901:168.769,913.769
   904:917.769,919.769,921.769 908:927.769 910:933.769,937.769,953.776.769
   938:921.776,933.776,945.769,949.769,951.769,953.769,965.776.769
   970:953.776,965.776,959.769,965.769,969.769 979:978.769,978.776 1024:1045.768,1045.776
   1027:1043.769 1031:1030.776 1036:1050.769,1048.768,1059.774 1049:1048.774 1081:1080.774
   1104:1077.768,1077.776 1107:1075.769 1111:1110.776 1116:1082.769,1080.768,1091.774
   1142:1140.783,1141.783 1217:1046.774,1078.774 1232:1040.774,1072.774,1040.776,1072.776
   1238:1045.774,1077.774 1242:1240.776,1241.776,1046.776,1078.776,1047.776,1079.776
   1250:1048.772,1080.772,1048.776,1080.776,1054.776,1086.776
   1258:1256.776,1257.776,1069.776,1101.776,1059.772,1091.772,1059.776,1091.776,1059.779
   1267:1091.779,1063.776,1095.776 1272:1067.776,1099.776
   1570:1575.1619,1575.1620,1608.1620,1575.1621,1610.1620 1728:1749.1620 1730:1729.1620
   1747:1746.1620 2345:2344.2364 2353:2352.2364 2356:2355.2364 2507:2503.2494,2503.2519
   2888:2887.2902 2891:2887.2878,2887.2903 2964:2962.3031 3018:3014.3006,3015.3006,3014.3031
   3144:3142.3158 3264:3263.3285 3271:3270.3285,3270.3286 3274:3270.3266,3270.3266.3285
   3402:3398.3390,3399.3390,3398.3415 3546:3545.3530 3548:3545.3535,3545.3535.3530,3545.3551
   4134:4133.4142 6918:6917.6965 6920:6919.6965 6922:6921.6965 6924:6923.6965 6926:6925.6965
   6930:6929.6965 6971:6970.6965 6973:6972.6965 6976:6974.6965,6975.6965 6979:6978.6965
   7680:65.805,97.805,66.775,98.775,66.803,98.803,66.817,98.817,67.807.769,99.807.769
   7690:68.775,100.775,68.803,100.803,68.817,100.817,68.807,100.807,68.813,100.813
   7700:69.772.768,101.772.768,69.772.769,101.772.769,69.813,101.813,69.816,101.816
   7708:69.807.774,101.807.774,70.775,102.775,71.772,103.772,72.775,104.775,72.803,104.803
   7718:72.776,104.776,72.807,104.807,72.814,104.814,73.816,105.816,73.776.769,105.776.769
   7728:75.769,107.769,75.803,107.803,75.817,107.817,76.803,108.803,76.803.772,108.803.772
   7738:76.817,108.817,76.813,108.813,77.769,109.769,77.775,109.775,77.803,109.803,78.775
   7749:110.775,78.803,110.803,78.817,110.817,78.813,110.813,79.771.769,111.771.769
   7758:79.771.776,111.771.776,79.772.768,111.772.768,79.772.769,111.772.769,80.769,112.769
   7766:80.775,112.775,82.775,114.775,82.803,114.803,82.803.772,114.803.772,82.817,114.817
   7776:83.775,115.775,83.803,115.803,83.769.775,115.769.775,83.780.775,115.780.775
   7784:83.803.775,115.803.775,84.775,116.775,84.803,116.803,84.817,116.817,84.813,116.813
   7794:85.804,117.804,85.816,117.816,85.813,117.813,85.771.769,117.771.769,85.772.776
   7803:117.772.776,86.771,118.771,86.803,118.803,87.768,119.768,87.769,119.769,87.776
   7813:119.776,87.775,119.775,87.803,119.803,88.775,120.775,88.776,120.776,89.775,121.775
   7824:90.770,122.770,90.803,122.803,90.817,122.817,104.817,116.776,119.778,121.778 7835:383.775
   7840:65.803,97.803,65.777,97.777,65.770.769,97.770.769,65.770.768,97.770.768,65.770.777
   7849:97.770.777,65.770.771,97.770.771,65.803.770,97.803.770,65.774.769,97.774.769
   7856:65.774.768,97.774.768,65.774.777,97.774.777,65.774.771,97.774.771,65.803.774
   7863:97.803.774,69.803,101.803,69.777,101.777,69.771,101.771,69.770.769,101.770.769
   7872:69.770.768,101.770.768,69.770.777,101.770.777,69.770.771,101.770.771,69.803.770
   7879:101.803.770,73.777,105.777,73.803,105.803,79.803,111.803,79.777,111.777,79.770.769
   7889:111.770.769,79.770.768,111.770.768,79.770.777,111.770.777,79.770.771,111.770.771
   7896:79.803.770,111.803.770,79.795.769,111.795.769,79.795.768,111.795.768,79.795.777
   7903:111.795.777,79.795.771,111.795.771,79.795.803,111.795.803,85.803,117.803,85.777
   7911:117.777,85.795.769,117.795.769,85.795.768,117.795.768,85.795.777,117.795.777
   7918:85.795.771,117.795.771,85.795.803,117.795.803,89.768,121.768,89.803,121.803,89.777
   7927:121.777,89.771,121.771
   7936:945.787,945.788,945.787.768,945.788.768,945.787.769,945.788.769,945.787.834
   7943:945.788.834,913.787,913.788,913.787.768,913.788.768,913.787.769,913.788.769
   7950:913.787.834,913.788.834,949.787,949.788,949.787.768,949.788.768,949.787.769
   7957:949.788.769 7960:917.787,917.788,917.787.768,917.788.768,917.787.769,917.788.769
   7968:951.787,951.788,951.787.768,951.788.768,951.787.769,951.788.769,951.787.834
   7975:951.788.834,919.787,919.788,919.787.768,919.788.768,919.787.769,919.788.769
   7982:919.787.834,919.788.834,953.787,953.788,953.787.768,953.788.768,953.787.769
   7989:953.788.769,953.787.834,953.788.834,921.787,921.788,921.787.768,921.788.768
   7996:921.787.769,921.788.769,921.787.834,921.788.834,959.787,959.788,959.787.768
   8003:959.788.768,959.787.769,959.788.769
   8008:927.787,927.788,927.787.768,927.788.768,927.787.769,927.788.769
   8016:965.787,965.788,965.787.768,965.788.768,965.787.769,965.788.769,965.787.834
   8023:965.788.834 8025:933.788 8027:933.788.768 8029:933.788.769
   8031:933.788.834,969.787,969.788,969.787.768,969.788.768,969.787.769,969.788.769
   8038:969.787.834,969.788.834,937.787,937.788,937.787.768,937.788.768,937.787.769
   8045:937.788.769,937.787.834,937.788.834,945.768 8050:949.768 8052:951.768 8054:953.768
   8056:959.768 8058:965.768 8060:969.768
   8064:945.787.837,945.788.837,945.787.768.837,945.788.768.837,945.787.769.837
   8069:945.788.769.837,945.787.834.837,945.788.834.837,913.787.837,913.788.837
   8074:913.787.768.837,913.788.768.837,913.787.769.837,913.788.769.837,913.787.834.837
   8079:913.788.834.837,951.787.837,951.788.837,951.787.768.837,951.788.768.837
   8084:951.787.769.837,951.788.769.837,951.787.834.837,951.788.834.837,919.787.837
   8089:919.788.837,919.787.768.837,919.788.768.837,919.787.769.837,919.788.769.837
   8094:919.787.834.837,919.788.834.837,969.787.837,969.788.837,969.787.768.837
   8099:969.788.768.837,969.787.769.837,969.788.769.837,969.787.834.837,969.788.834.837
   8104:937.787.837,937.788.837,937.787.768.837,937.788.768.837,937.787.769.837
   8109:937.788.769.837,937.787.834.837,937.788.834.837,945.774,945.772,945.768.837,945.837
   8116:945.769.837 8118:945.834,945.834.837,913.774,913.772,913.768 8124:913.837
   8129:168.834,951.768.837,951.837,951.769.837 8134:951.834,951.834.837,917.768 8138:919.768
   8140:919.837,8127.768,8127.769,8127.834,953.774,953.772,953.776.768
   8150:953.834,953.776.834,921.774,921.772,921.768
   8157:8190.768,8190.769,8190.834,965.774,965.772,965.776.768
   8164:961.787,961.788,965.834,965.776.834,933.774,933.772,933.768 8172:929.788,168.768
   8178:969.768.837,969.837,969.769.837 8182:969.834,969.834.837,927.768 8186:937.768
   8188:937.837 8602:8592.824,8594.824 8622:8596.824 8653:8656.824,8660.824,8658.824
   8708:8707.824 8713:8712.824 8716:8715.824 8740:8739.824 8742:8741.824 8769:8764.824
   8772:8771.824 8775:8773.824 8777:8776.824 8800:61.824 8802:8801.824
   8813:8781.824,60.824,62.824,8804.824,8805.824 8820:8818.824,8819.824 8824:8822.824,8823.824
   8832:8826.824,8827.824 8836:8834.824,8835.824 8840:8838.824,8839.824
   8876:8866.824,8872.824,8873.824,8875.824 8928:8828.824,8829.824,8849.824,8850.824
   8938:8882.824,8883.824,8884.824,8885.824 12364:12363.12441 12366:12365.12441 12368:12367.12441
   12370:12369.12441 12372:12371.12441 12374:12373.12441 12376:12375.12441 12378:12377.12441
   12380:12379.12441 12382:12381.12441 12384:12383.12441 12386:12385.12441 12389:12388.12441
   12391:12390.12441 12393:12392.12441 12400:12399.12441,12399.12442
   12403:12402.12441,12402.12442 12406:12405.12441,12405.12442 12409:12408.12441,12408.12442
   12412:12411.12441,12411.12442 12436:12358.12441 12446:12445.12441 12460:12459.12441
   12462:12461.12441 12464:12463.12441 12466:12465.12441 12468:12467.12441 12470:12469.12441
   12472:12471.12441 12474:12473.12441 12476:12475.12441 12478:12477.12441 12480:12479.12441
   12482:12481.12441 12485:12484.12441 12487:12486.12441 12489:12488.12441
   12496:12495.12441,12495.12442 12499:12498.12441,12498.12442 12502:12501.12441,12501.12442
   12505:12504.12441,12504.12442 12508:12507.12441,12507.12442 12532:12454.12441
   12535:12527.12441,12528.12441,12529.12441,12530.12441 12542:12541.12441 67017:67026.775
   67044:67034.775 69786:69785.69818 69788:69787.69818 69803:69797.69818
   69934:69937.69927,69938.69927 70475:70471.70462,70471.70487 70531:70530.70601
   70533:70532.70587 70542:70539.70594 70545:70544.70601 70597:70594.70594
   70599:70594.70584,70594.70601 70843:70841.70842,70841.70832 70846:70841.70845
   71098:71096.71087,71097.71087 71992:71989.71984
   90401:90398.90398,90398.90409,90398.90399,90409.90399,90398.90400,90398.90398.90399
   90407:90398.90409.90399,90398.90398.90400 93544:93543.93543,93539.93543,93539.93543.93543"

/-- Characters that are given up for the sequence that they stand for. -/
def variantCode : String :=
  "832:768*2 835:787,776.769 884:697 894:59 903:183
   2392:2325.2364,2326.2364,2327.2364,2332.2364,2337.2364,2338.2364,2347.2364,2351.2364
   2524:2465.2492,2466.2492 2527:2479.2492 2611:2610.2620 2614:2616.2620
   2649:2582.2620,2583.2620,2588.2620 2654:2603.2620 2908:2849.2876,2850.2876 3907:3906.4023
   3917:3916.4023 3922:3921.4023 3927:3926.4023 3932:3931.4023 3945:3904.4021 3955:3953.3954
   3957:3953.3956,4018.3968 3960:4019.3968 3969:3953.3968 3987:3986.4023 3997:3996.4023
   4002:4001.4023 4007:4006.4023 4012:4011.4023 4025:3984.4021 8049:945.769 8051:949.769
   8053:951.769 8055:953.769 8057:959.769 8059:965.769 8061:969.769 8123:913.769 8126:953
   8137:917.769 8139:919.769 8147:953.776.769 8155:921.769 8163:965.776.769 8171:933.769
   8174:168.769,96 8185:927.769 8187:937.769 8189:180 8192:8194*2 8486:937 8490:75,65.778
   9001:12296*2 10972:10973.824
   63744:35912,26356,36554,36040,28369,20018,21477,40860,40860,22865,37329,21895,22856
   63757:25078,30313,32645,34367,34746,35064,37007,27138,27931,28889,29662,33853,37226
   63770:39409,20098,21365,27396,29211,34349,40478,23888,28651,34253,35172,25289,33240
   63783:34847,24266,26391,28010,29436,37070,20358,20919,21214,25796,27347,29200,30439
   63796:32769,34310,34396,36335,38706,39791,40442,30860,31103,32160,33737,37636,40575
   63809:35542,22751,24324,31840,32894,29282,30922,36034,38647,22744,23650,27155,28122
   63822:28431,32047,32311,38475,21202,32907,20956,20940,31260,32190,33777,38517,35712
   63835:25295,27138,35582,20025,23527,24594,29575,30064,21271,30971,20415,24489,19981
   63848:27852,25976,32034,21443,22622,30465,33865,35498,27578,36784,27784,25342,33509
   63861:25504,30053,20142,20841,20937,26753,31975,33391,35538,37327,21237,21570,22899
   63874:24300,26053,28670,31018,38317,39530,40599,40654,21147,26310,27511,36706,24180
   63887:24976,25088,25754,28451,29001,29833,31178,32244,32879,36646,34030,36899,37706
   63900:21015,21155,21693,28872,35010,35498,24265,24565,25467,27566,31806,29557,20196
   63913:22265,23527,23994,24604,29618,29801,32666,32838,37428,38646,38728,38936,20363
   63926:31150,37300,38584,24801,20102,20698,23534,23615,26009,27138,29134,30274,34044
   63939:36988,40845,26248,38446,21129,26491,26611,27969,28316,29705,30041,30827,32016
   63952:39006,20845,25134,38520,20523,23833,28138,36650,24459,24900,26647,29575,38534
   63965:21033,21519,23653,26131,26446,26792,27877,29702,30178,32633,35023,35041,37324
   63978:38626,21311,28346,21533,29136,29848,34298,38563,40023,40607,26519,28107,33256
   63991:31435,31520,31890,29376,28825,35672,20160,33590,21050,20999,24230,25299,31958
   64004:23429,27934,26292,36667,34892,38477,35211,24275,20800,21952 64016:22618 64018:26228
   64021:20958,29482,30410,31036,31070,31077,31119,38742,31934,32701 64032:34322 64034:35576
   64037:36920,37117
   64042:39151,39164,39208,40372,37086,38583,20398,20711,20813,21193,21220,21329,21917
   64055:22022,22120,22592,22696,23652,23662,24724,24936,24974,25074,25935,26082,26257
   64068:26757,28023,28186,28450,29038,29227,29730,30865,31038,31049,31048,31056,31062
   64081:31069,31117*2,31296,31361,31680,32244,32265,32321,32626,32773,33261,33401,33401
   64095:33879,35088,35222,35585,35641,36051,36104,36790,36920,38627,38911,38971,24693
   64108:148206,33304
   64112:20006,20917,20840,20352,20805,20864,21191,21242,21917,21845,21913,21986,22618
   64125:22707,22852,22868,23138,23336,24274,24281,24425,24493,24792,24910,24840,24974
   64138:24928,25074,25140,25540,25628,25682,25942,26228,26391,26395,26454,27513,27578
   64151:27969,28379,28363,28450,28702,29038,30631,29237,29359,29482,29809,29958,30011
   64164:30237,30239,30410,30427,30452,30538,30528,30924,31409,31680,31867,32091,32244
   64177:32574,32773,33618,33775,34681,35137,35206,35222,35519,35576,35531,35585,35582
   64190:35565,35641,35722,36104,36664,36978,37273,37494,38524,38627,38742,38875,38911
   64203:38923,38971,39698,40860,141386,141380,144341,15261,16408,16441,152137,154832
   64215:163539,40771,40846 64285:1497.1460 64287:1522.1463
   64298:1513.1473,1513.1474,1513.1468.1473,1513.1468.1474,1488.1463,1488.1464,1488.1468
   64305:1489.1468,1490.1468,1491.1468,1492.1468,1493.1468,1494.1468
   64312:1496.1468,1497.1468,1498.1468,1499.1468,1500.1468 64318:1502.1468
   64320:1504.1468,1505.1468 64323:1507.1468,1508.1468
   64326:1510.1468,1511.1468,1512.1468,1513.1468,1514.1468,1493.1465,1489.1471,1499.1471
   64334:1508.1471 119134:119127.119141,119128.119141,119128.119141.119150,119128.119141.119151
   119138:119128.119141.119152,119128.119141.119153,119128.119141.119154
   119227:119225.119141,119226.119141,119225.119141.119150,119226.119141.119150
   119231:119225.119141.119151,119226.119141.119151
   194560:20029,20024,20033,131362,20320,20398,20411,20482,20602,20633,20711,20687,13470
   194573:132666,20813,20820,20836,20855,132380,13497,20839,20877,132427,20887,20900,20172
   194586:20908,20917,168415,20981,20995,13535,21051,21062,21106,21111,13589,21191,21193
   194599:21220,21242,21253*2,21271,21321,21329,21338,21363,21373,21375,21375,21375,133676
   194613:28784,21450,21471,133987,21483,21489,21510,21662,21560,21576,21608,21666,21750
   194626:21776,21843,21859,21892,21892,21913,21931,21939,21954,22294,22022,22295,22097
   194639:22132,20999,22766,22478,22516,22541,22411,22578,22577,22700,136420,22770,22775
   194652:22790,22810,22818,22882,136872,136938,23020,23067,23079,23000,23142,14062,14076
   194665:23304,23358,23358,137672,23491,23512,23527,23539,138008,23551,23558,24403,23586
   194678:14209,23648,23662,23744,23693,138724,23875,138726,23918,23915,23932,24033*2,14383
   194692:24061,24104,24125,24169,14434,139651,14460,24240,24243,24246,24266,172946,24318
   194705:140081,140081,33281,24354,24354,14535,144056,156122,24418,24427,14563,24474,24525
   194718:24535,24569,24705,14650,14620,24724,141012,24775,24904,24908,24910,24908,24954
   194731:24974,25010,24996,25007,25054,25074,25078,25104,25115,25181,25265,25300,25424
   194744:142092,25405,25340,25448,25475,25572,142321,25634,25541,25513,14894,25705,25726
   194757:25757,25719,14956,25935,25964,143370,26083,26360,26185,15129,26257,15112,15076
   194770:20882,20885,26368,26268,32941,17369,26391,26395,26401,26462,26451,144323,15177
   194783:26618,26501,26706,26757,144493,26766,26655,26900,15261,26946,27043,27114,27304
   194796:145059,27355,15384,27425,145575,27476,15438,27506,27551,27578*2,146061,138507
   194809:146170,27726,146620,27839,27853,27751,27926,27966,28023,27969,28009,28024,28037
   194822:146718,27956,28207,28270,15667,28363,28359,147153,28153,28526,147294,147342,28614
   194835:28729,28702,28699,15766,28746,28797,28791,28845,132389,28997,148067,29084,148395
   194848:29224,29237,29264,149000,29312,29333,149301,149524,29562,29579,16044,29605,16056
   194861:16056,29767,29788,29809,29829,29898,16155,29988,150582,30014,150674,30064,139679
   194874:30224,151457,151480,151620,16380,16392,30452,151795,151794,151833,151859,30494*2
   194887:30495,30538,16441,30603,16454,16534,152605,30798,30860,30924,16611,153126,31062
   194900:153242,153285,31119,31211,16687,31296,31306,31311,153980,154279,154279,31470
   194912:16898,154539,31686,31689,16935,154752,31954,17056,31976,31971,32000,155526,32099
   194925:17153,32199,32258,32325,17204,156200,156231,17241,156377,32634,156478,32661,32762
   194938:32773,156890,156963,32864,157096,32880,144223,17365,32946,33027,17419,33086,23221
   194951:157607,157621,144275,144284,33281,33284,36766,17515,33425,33419,33437,21171,33457
   194964:33459,33469,33510,158524,33509,33565,33635,33709,33571,33725,33767,33879,33619
   194977:33738,33740,33756,158774,159083,158933,17707,34033,34035,34070,160714,34148
   194989:159532,17757,17761,159665,159954,17771,34384,34396,34407,34409,34473,34440,34574
   195002:34530,34681,34600,34667,34694,17879,34785,34817,17913,34912,34915,161383,35031
   195015:35038,17973,35066,13499,161966,162150,18110,18119,35488,35565,35722,35925,162984
   195028:36011,36033,36123,36215,163631,133124,36299,36284,36336,133342,36564,36664,165330
   195041:165357,37012,37105,37137,165678,37147,37432,37591*2,37500,37881,37909,166906
   195054:38283,18837,38327,167287,18918,38595,23986,38691,168261,168474,19054,19062,38880
   195067:168970,19122,169110,38923,38923,38953,169398,39138,19251,39209,39335,39362,39422
   195080:19406,170800,39698,40000,40189,19662,19693,40295,172238,19704,172293,172558
   195092:172689,40635,19798,40697,40702,40709,40719,40726,40763,173568"

/-- The characters that are preferred to what they stand for. -/
def composites : List (Char × List Char) := imagesOfCode compositeCode

/-- The characters that are given up for what they stand for. -/
def variants : List (Char × List Char) := imagesOfCode variantCode

end AssemblerIndex.Text
