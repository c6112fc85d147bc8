import Mathlib.Data.List.Chain
import Mathlib.Data.List.GetD

/-!
# Cell load of an NR cell

The cell-load reporter estimates how many resource blocks a scheduled transport block takes: it
searches the column of the modulation and coding scheme in the LTE table of transport block
sizes. The search has no bound of its own; `none` is an index outside a table.
-/

namespace Ns3.Oran.NrCellLoad

open List Option

/-- `McsToItbsDl`. -/
def mcsToItbsDl : List Nat :=
  [0, 1, 2, 3, 4, 5, 6, 7, 8, 9, 9, 10, 11, 12, 13, 14, 15, 15, 16, 17, 18, 19, 20, 21, 22, 23, 24, 25, 26]

/-- `TransportBlockSizeTable`, in bits, one row for each number of resource blocks. -/
def transportBlockSizeTable : List (List Nat) :=
  [ [16,24,32,40,56,72,88,104,120,136,144,176,208,224,
     256,280,328,336,376,408,440,488,520,552,584,616,712],
    [32,56,72,104,120,144,176,224,256,296,328,376,440,488,
     552,600,632,696,776,840,904,1000,1064,1128,1192,1256,1480],
    [56,88,144,176,208,224,256,328,392,456,504,584,680,744,
     840,904,968,1064,1160,1288,1384,1480,1608,1736,1800,1864,2216],
    [88,144,176,208,256,328,392,472,536,616,680,776,904,1000,
     1128,1224,1288,1416,1544,1736,1864,1992,2152,2280,2408,2536,2984],
    [120,176,208,256,328,424,504,584,680,776,872,1000,1128,1256,
     1416,1544,1608,1800,1992,2152,2344,2472,2664,2856,2984,3112,3752],
    [152,208,256,328,408,504,600,712,808,936,1032,1192,1352,1544,
     1736,1800,1928,2152,2344,2600,2792,2984,3240,3496,3624,3752,4392],
    [176,224,296,392,488,600,712,840,968,1096,1224,1384,1608,1800,
     1992,2152,2280,2536,2792,2984,3240,3496,3752,4008,4264,4392,5160],
    [208,256,328,440,552,680,808,968,1096,1256,1384,1608,1800,2024,
     2280,2472,2600,2856,3112,3496,3752,4008,4264,4584,4968,5160,5992],
    [224,328,376,504,632,776,936,1096,1256,1416,1544,1800,2024,2280,
     2600,2728,2984,3240,3624,3880,4136,4584,4776,5160,5544,5736,6712],
    [256,344,424,568,696,872,1032,1224,1384,1544,1736,2024,2280,2536,
     2856,3112,3240,3624,4008,4264,4584,4968,5352,5736,5992,6200,7480],
    [288,376,472,616,776,968,1128,1320,1544,1736,1928,2216,2472,2856,
     3112,3368,3624,4008,4392,4776,5160,5544,5992,6200,6712,6968,8248],
    [328,424,520,680,840,1032,1224,1480,1672,1864,2088,2408,2728,3112,
     3496,3624,3880,4392,4776,5160,5544,5992,6456,6968,7224,7480,8760],
    [344,456,568,744,904,1128,1352,1608,1800,2024,2280,2600,2984,3368,
     3752,4008,4264,4776,5160,5544,5992,6456,6968,7480,7992,8248,9528],
    [376,488,616,808,1000,1224,1480,1672,1928,2216,2472,2792,3240,3624,
     4008,4264,4584,5160,5544,5992,6456,6968,7480,7992,8504,8760,10296],
    [392,520,648,872,1064,1320,1544,1800,2088,2344,2664,2984,3368,3880,
     4264,4584,4968,5352,5992,6456,6968,7480,7992,8504,9144,9528,11064],
    [424,568,696,904,1128,1384,1672,1928,2216,2536,2792,3240,3624,4136,
     4584,4968,5160,5736,6200,6968,7480,7992,8504,9144,9912,10296,11832],
    [456,600,744,968,1192,1480,1736,2088,2344,2664,2984,3496,3880,4392,
     4968,5160,5544,6200,6712,7224,7992,8504,9144,9912,10296,10680,12576],
    [488,632,776,1032,1288,1544,1864,2216,2536,2856,3112,3624,4136,4584,
     5160,5544,5992,6456,7224,7736,8248,9144,9528,10296,11064,11448,13536],
    [504,680,840,1096,1352,1672,1992,2344,2664,2984,3368,3880,4392,4968,
     5544,5736,6200,6712,7480,8248,8760,9528,10296,11064,11448,12216,14112],
    [536,712,872,1160,1416,1736,2088,2472,2792,3112,3496,4008,4584,5160,
     5736,6200,6456,7224,7992,8504,9144,9912,10680,11448,12216,12576,14688],
    [568,744,936,1224,1480,1864,2216,2536,2984,3368,3752,4264,4776,5352,
     5992,6456,6712,7480,8248,9144,9912,10680,11448,12216,12960,13536,15264],
    [600,776,968,1256,1544,1928,2280,2664,3112,3496,3880,4392,4968,5736,
     6200,6712,7224,7992,8760,9528,10296,11064,11832,12576,13536,14112,16416],
    [616,808,1000,1320,1608,2024,2408,2792,3240,3624,4008,4584,5352,5992,
     6456,6968,7480,8248,9144,9912,10680,11448,12576,12960,14112,14688,16992],
    [648,872,1064,1384,1736,2088,2472,2984,3368,3752,4264,4776,5544,6200,
     6968,7224,7736,8760,9528,10296,11064,12216,12960,13536,14688,15264,17568],
    [680,904,1096,1416,1800,2216,2600,3112,3496,4008,4392,4968,5736,6456,
     7224,7736,7992,9144,9912,10680,11448,12576,13536,14112,15264,15840,18336],
    [712,936,1160,1480,1864,2280,2728,3240,3624,4136,4584,5352,5992,6712,
     7480,7992,8504,9528,10296,11064,12216,12960,14112,14688,15840,16416,19080],
    [744,968,1192,1544,1928,2344,2792,3368,3752,4264,4776,5544,6200,6968,
     7736,8248,8760,9912,10680,11448,12576,13536,14688,15264,16416,16992,19848],
    [776,1000,1256,1608,1992,2472,2984,3368,3880,4392,4968,5736,6456,7224,
     7992,8504,9144,10296,11064,12216,12960,14112,15264,15840,16992,17568,20616],
    [776,1032,1288,1672,2088,2536,2984,3496,4008,4584,5160,5992,6712,7480,
     8248,8760,9528,10296,11448,12576,13536,14688,15840,16416,17568,18336,21384],
    [808,1064,1320,1736,2152,2664,3112,3624,4264,4776,5352,5992,6712,7736,
     8504,9144,9912,10680,11832,12960,14112,15264,16416,16992,18336,19080,22152],
    [840,1128,1384,1800,2216,2728,3240,3752,4392,4968,5544,6200,6968,7992,
     8760,9528,9912,11064,12216,13536,14688,15840,16992,17568,19080,19848,22920],
    [872,1160,1416,1864,2280,2792,3368,3880,4584,5160,5736,6456,7224,8248,
     9144,9912,10296,11448,12576,13536,14688,15840,16992,18336,19848,20616,23688],
    [904,1192,1480,1928,2344,2856,3496,4008,4584,5160,5736,6712,7480,8504,
     9528,10296,10680,11832,12960,14112,15264,16416,17568,19080,19848,20616,24496],
    [936,1224,1544,1992,2408,2984,3496,4136,4776,5352,5992,6968,7736,8760,
     9912,10296,11064,12216,13536,14688,15840,16992,18336,19848,20616,21384,25456],
    [968,1256,1544,2024,2472,3112,3624,4264,4968,5544,6200,6968,7992,9144,
     9912,10680,11448,12576,14112,15264,16416,17568,19080,19848,21384,22152,25456],
    [1000,1288,1608,2088,2600,3112,3752,4392,4968,5736,6200,7224,8248,9144,
     10296,11064,11832,12960,14112,15264,16992,18336,19080,20616,22152,22920,26416],
    [1032,1352,1672,2152,2664,3240,3880,4584,5160,5736,6456,7480,8504,9528,
     10680,11448,12216,13536,14688,15840,16992,18336,19848,21384,22920,23688,27376],
    [1032,1384,1672,2216,2728,3368,4008,4584,5352,5992,6712,7736,8760,9912,
     11064,11832,12216,13536,15264,16416,17568,19080,20616,22152,22920,24496,28336],
    [1064,1416,1736,2280,2792,3496,4136,4776,5544,6200,6712,7736,8760,9912,
     11064,11832,12576,14112,15264,16992,18336,19848,21384,22152,23688,24496,29296],
    [1096,1416,1800,2344,2856,3496,4136,4968,5544,6200,6968,7992,9144,10296,
     11448,12216,12960,14688,15840,16992,18336,19848,21384,22920,24496,25456,29296],
    [1128,1480,1800,2408,2984,3624,4264,4968,5736,6456,7224,8248,9528,10680,
     11832,12576,13536,14688,16416,17568,19080,20616,22152,23688,25456,26416,30576],
    [1160,1544,1864,2472,2984,3752,4392,5160,5992,6712,7480,8504,9528,10680,
     12216,12960,13536,15264,16416,18336,19848,21384,22920,24496,25456,26416,30576],
    [1192,1544,1928,2536,3112,3752,4584,5352,5992,6712,7480,8760,9912,11064,
     12216,12960,14112,15264,16992,18336,19848,21384,22920,24496,26416,27376,31704],
    [1224,1608,1992,2536,3112,3880,4584,5352,6200,6968,7736,8760,9912,11448,
     12576,13536,14112,15840,17568,19080,20616,22152,23688,25456,26416,28336,32856],
    [1256,1608,2024,2600,3240,4008,4776,5544,6200,6968,7992,9144,10296,11448,
     12960,13536,14688,16416,17568,19080,20616,22920,24496,25456,27376,28336,32856],
    [1256,1672,2088,2664,3240,4008,4776,5736,6456,7224,7992,9144,10680,11832,
     12960,14112,14688,16416,18336,19848,21384,22920,24496,26416,28336,29296,34008],
    [1288,1736,2088,2728,3368,4136,4968,5736,6456,7480,8248,9528,10680,12216,
     13536,14688,15264,16992,18336,20616,22152,23688,25456,27376,28336,29296,35160],
    [1320,1736,2152,2792,3496,4264,4968,5992,6712,7480,8504,9528,11064,12216,
     13536,14688,15840,17568,19080,20616,22152,24496,25456,27376,29296,30576,35160],
    [1352,1800,2216,2856,3496,4392,5160,5992,6968,7736,8504,9912,11064,12576,
     14112,15264,15840,17568,19080,21384,22920,24496,26416,28336,29296,31704,36696],
    [1384,1800,2216,2856,3624,4392,5160,6200,6968,7992,8760,9912,11448,12960,
     14112,15264,16416,18336,19848,21384,22920,25456,27376,28336,30576,31704,36696],
    [1416,1864,2280,2984,3624,4584,5352,6200,7224,7992,9144,10296,11832,12960,
     14688,15840,16416,18336,19848,22152,23688,25456,27376,29296,31704,32856,37888],
    [1416,1864,2344,2984,3752,4584,5352,6456,7224,8248,9144,10680,11832,13536,
     14688,15840,16992,19080,20616,22152,24496,26416,28336,29296,31704,32856,37888],
    [1480,1928,2344,3112,3752,4776,5544,6456,7480,8248,9144,10680,12216,13536,
     15264,16416,16992,19080,21384,22920,24496,26416,28336,30576,32856,34008,39232],
    [1480,1992,2408,3112,3880,4776,5736,6712,7480,8504,9528,11064,12216,14112,
     15264,16416,17568,19848,21384,22920,25456,27376,29296,30576,32856,34008,40576],
    [1544,1992,2472,3240,4008,4776,5736,6712,7736,8760,9528,11064,12576,14112,
     15840,16992,17568,19848,22152,23688,25456,27376,29296,31704,34008,35160,40576],
    [1544,2024,2536,3240,4008,4968,5992,6712,7736,8760,9912,11448,12576,14688,
     15840,16992,18336,20616,22152,24496,26416,28336,30576,31704,34008,35160,40576],
    [1608,2088,2536,3368,4136,4968,5992,6968,7992,9144,9912,11448,12960,14688,
     16416,17568,18336,20616,22920,24496,26416,28336,30576,32856,35160,36696,42368],
    [1608,2088,2600,3368,4136,5160,5992,6968,7992,9144,10296,11832,12960,14688,
     16416,17568,19080,20616,22920,25456,27376,29296,31704,32856,35160,36696,42368],
    [1608,2152,2664,3496,4264,5160,6200,7224,8248,9144,10296,11832,13536,15264,
     16992,18336,19080,21384,23688,25456,27376,29296,31704,34008,36696,37888,43816],
    [1672,2152,2664,3496,4264,5352,6200,7224,8504,9528,10680,12216,13536,15264,
     16992,18336,19848,21384,23688,25456,28336,30576,32856,34008,36696,37888,43816],
    [1672,2216,2728,3624,4392,5352,6456,7480,8504,9528,10680,12216,14112,15840,
     17568,18336,19848,22152,24496,26416,28336,30576,32856,35160,36696,39232,45352],
    [1736,2280,2792,3624,4392,5544,6456,7480,8760,9912,11064,12576,14112,15840,
     17568,19080,19848,22152,24496,26416,29296,31704,34008,35160,37888,39232,45352],
    [1736,2280,2856,3624,4584,5544,6456,7736,8760,9912,11064,12576,14112,16416,
     18336,19080,20616,22920,24496,27376,29296,31704,34008,36696,37888,40576,46888],
    [1800,2344,2856,3752,4584,5736,6712,7736,9144,10296,11448,12960,14688,16416,
     18336,19848,20616,22920,25456,27376,29296,31704,34008,36696,39232,40576,46888],
    [1800,2344,2856,3752,4584,5736,6712,7992,9144,10296,11448,12960,14688,16992,
     18336,19848,21384,23688,25456,28336,30576,32856,35160,37888,39232,40576,48936],
    [1800,2408,2984,3880,4776,5736,6968,7992,9144,10296,11448,13536,15264,16992,
     19080,20616,21384,23688,26416,28336,30576,32856,35160,37888,40576,42368,48936],
    [1864,2472,2984,3880,4776,5992,6968,8248,9528,10680,11832,13536,15264,16992,
     19080,20616,22152,24496,26416,29296,31704,34008,36696,37888,40576,42368,48936],
    [1864,2472,3112,4008,4968,5992,6968,8248,9528,10680,11832,13536,15264,17568,
     19848,20616,22152,24496,27376,29296,31704,34008,36696,39232,42368,43816,51024],
    [1928,2536,3112,4008,4968,5992,7224,8504,9528,11064,12216,14112,15840,17568,
     19848,21384,22152,24496,27376,29296,31704,35160,36696,39232,42368,43816,51024],
    [1928,2536,3112,4136,4968,6200,7224,8504,9912,11064,12216,14112,15840,18336,
     19848,21384,22920,25456,27376,30576,32856,35160,37888,40576,42368,43816,52752],
    [1992,2600,3240,4136,5160,6200,7480,8760,9912,11064,12576,14112,16416,18336,
     20616,22152,22920,25456,28336,30576,32856,35160,37888,40576,43816,45352,52752],
    [1992,2600,3240,4264,5160,6200,7480,8760,9912,11448,12576,14688,16416,18336,
     20616,22152,23688,26416,28336,30576,34008,36696,39232,40576,43816,45352,52752],
    [2024,2664,3240,4264,5160,6456,7736,8760,10296,11448,12960,14688,16416,19080,
     20616,22152,23688,26416,29296,31704,34008,36696,39232,42368,45352,46888,55056],
    [2088,2728,3368,4392,5352,6456,7736,9144,10296,11832,12960,14688,16992,19080,
     21384,22920,24496,26416,29296,31704,34008,36696,40576,42368,45352,46888,55056],
    [2088,2728,3368,4392,5352,6712,7736,9144,10680,11832,12960,15264,16992,19080,
     21384,22920,24496,27376,29296,32856,35160,37888,40576,43816,45352,46888,55056],
    [2088,2792,3368,4392,5544,6712,7992,9144,10680,11832,13536,15264,17568,19848,
     22152,23688,24496,27376,30576,32856,35160,37888,40576,43816,46888,48936,55056],
    [2152,2792,3496,4584,5544,6712,7992,9528,10680,12216,13536,15840,17568,19848,
     22152,23688,25456,27376,30576,32856,35160,39232,42368,43816,46888,48936,57336],
    [2152,2856,3496,4584,5544,6968,8248,9528,11064,12216,13536,15840,17568,19848,
     22152,23688,25456,28336,30576,34008,36696,39232,42368,45352,46888,48936,57336],
    [2216,2856,3496,4584,5736,6968,8248,9528,11064,12576,14112,15840,18336,20616,
     22920,24496,25456,28336,31704,34008,36696,39232,42368,45352,48936,51024,57336],
    [2216,2856,3624,4776,5736,6968,8248,9912,11064,12576,14112,16416,18336,20616,
     22920,24496,26416,29296,31704,34008,36696,40576,43816,45352,48936,51024,59256],
    [2280,2984,3624,4776,5736,7224,8504,9912,11448,12960,14112,16416,18336,20616,
     22920,24496,26416,29296,31704,35160,37888,40576,43816,46888,48936,51024,59256],
    [2280,2984,3624,4776,5992,7224,8504,9912,11448,12960,14688,16416,19080,21384,
     23688,25456,26416,29296,32856,35160,37888,40576,43816,46888,51024,52752,59256],
    [2280,2984,3752,4776,5992,7224,8760,10296,11448,12960,14688,16992,19080,21384,
     23688,25456,27376,30576,32856,35160,39232,42368,45352,46888,51024,52752,61664],
    [2344,3112,3752,4968,5992,7480,8760,10296,11832,13536,14688,16992,19080,21384,
     24496,25456,27376,30576,32856,36696,39232,42368,45352,48936,51024,52752,61664],
    [2344,3112,3880,4968,5992,7480,8760,10296,11832,13536,14688,16992,19080,22152,
     24496,26416,27376,30576,34008,36696,39232,42368,45352,48936,52752,55056,61664],
    [2408,3112,3880,4968,6200,7480,9144,10680,12216,13536,15264,17568,19848,22152,
     24496,26416,28336,30576,34008,36696,40576,43816,46888,48936,52752,55056,63776],
    [2408,3240,3880,5160,6200,7736,9144,10680,12216,13536,15264,17568,19848,22152,
     25456,26416,28336,31704,34008,37888,40576,43816,46888,51024,52752,55056,63776],
    [2472,3240,4008,5160,6200,7736,9144,10680,12216,14112,15264,17568,19848,22920,
     25456,27376,28336,31704,35160,37888,40576,43816,46888,51024,52752,55056,63776],
    [2472,3240,4008,5160,6456,7736,9144,11064,12576,14112,15840,18336,20616,22920,
     25456,27376,29296,31704,35160,37888,42368,45352,48936,51024,55056,57336,66592],
    [2536,3240,4008,5352,6456,7992,9528,11064,12576,14112,15840,18336,20616,22920,
     25456,27376,29296,32856,35160,39232,42368,45352,48936,51024,55056,57336,66592],
    [2536,3368,4136,5352,6456,7992,9528,11064,12576,14112,15840,18336,20616,23688,
     26416,28336,29296,32856,36696,39232,42368,45352,48936,52752,55056,57336,66592],
    [2536,3368,4136,5352,6456,7992,9528,11448,12960,14688,16416,18336,21384,23688,
     26416,28336,30576,32856,36696,39232,42368,46888,48936,52752,57336,59256,68808],
    [2600,3368,4136,5352,6712,8248,9528,11448,12960,14688,16416,19080,21384,23688,
     26416,28336,30576,34008,36696,40576,43816,46888,51024,52752,57336,59256,68808],
    [2600,3496,4264,5544,6712,8248,9912,11448,12960,14688,16416,19080,21384,24496,
     27376,29296,30576,34008,37888,40576,43816,46888,51024,55056,57336,59256,68808],
    [2664,3496,4264,5544,6712,8248,9912,11448,13536,15264,16992,19080,21384,24496,
     27376,29296,30576,34008,37888,40576,43816,46888,51024,55056,57336,61664,71112],
    [2664,3496,4264,5544,6968,8504,9912,11832,13536,15264,16992,19080,22152,24496,
     27376,29296,31704,35160,37888,40576,45352,48936,51024,55056,59256,61664,71112],
    [2728,3496,4392,5736,6968,8504,10296,11832,13536,15264,16992,19848,22152,25456,
     28336,29296,31704,35160,37888,42368,45352,48936,52752,55056,59256,61664,71112],
    [2728,3624,4392,5736,6968,8760,10296,11832,13536,15264,16992,19848,22152,25456,
     28336,30576,31704,35160,39232,42368,45352,48936,52752,57336,59256,61664,73712],
    [2728,3624,4392,5736,6968,8760,10296,12216,14112,15840,17568,19848,22920,25456,
     28336,30576,31704,35160,39232,42368,46888,48936,52752,57336,61664,63776,73712],
    [2792,3624,4584,5736,7224,8760,10296,12216,14112,15840,17568,19848,22920,25456,
     28336,30576,32856,36696,39232,43816,46888,51024,55056,57336,61664,63776,75376],
    [2792,3752,4584,5992,7224,8760,10680,12216,14112,15840,17568,20616,22920,26416,
     29296,30576,32856,36696,40576,43816,46888,51024,55056,57336,61664,63776,75376],
    [2856,3752,4584,5992,7224,9144,10680,12576,14112,16416,18336,20616,23688,26416,
     29296,31704,32856,36696,40576,43816,46888,51024,55056,59256,61664,63776,75376],
    [2856,3752,4584,5992,7480,9144,10680,12576,14688,16416,18336,20616,23688,26416,
     29296,31704,34008,36696,40576,43816,48936,51024,55056,59256,63776,66592,75376],
    [2856,3752,4584,5992,7480,9144,10680,12576,14688,16416,18336,21384,23688,26416,
     29296,31704,34008,37888,40576,45352,48936,52752,57336,59256,63776,66592,75376],
    [2984,3880,4776,6200,7480,9144,11064,12960,14688,16416,18336,21384,23688,27376,
     30576,31704,34008,37888,42368,45352,48936,52752,57336,59256,63776,66592,75376],
    [2984,3880,4776,6200,7480,9528,11064,12960,14688,16992,18336,21384,24496,27376,
     30576,32856,34008,37888,42368,45352,48936,52752,57336,61664,63776,66592,75376],
    [2984,3880,4776,6200,7736,9528,11064,12960,15264,16992,19080,21384,24496,27376,
     30576,32856,35160,39232,42368,46888,48936,52752,57336,61664,66592,68808,75376],
    [2984,4008,4776,6200,7736,9528,11448,12960,15264,16992,19080,22152,24496,27376,
     30576,32856,35160,39232,42368,46888,51024,55056,59256,61664,66592,68808,75376],
    [2984,4008,4968,6456,7736,9528,11448,13536,15264,16992,19080,22152,24496,28336,
     31704,34008,35160,39232,43816,46888,51024,55056,59256,61664,66592,68808,75376],
    [3112,4008,4968,6456,7992,9528,11448,13536,15264,17568,19080,22152,25456,28336,
     31704,34008,35160,39232,43816,46888,51024,55056,59256,63776,66592,71112,75376]]

/-- The loop of `GetDlRbSizeFromMcs` over the rows from `nprb` on. -/
def searchRows (itbs tbSize : Nat) : List (List Nat) -> Nat -> Option Nat
  | [], _ => none
  | row :: rows, nprb => row[itbs]?.bind fun entry =>
    if tbSize > entry / 8 then searchRows itbs tbSize rows (nprb + 1) else some (nprb + 1)

/-- `GetDlRbSizeFromMcs`. -/
def getDlRbSizeFromMcs (mcs tbSize : Nat) : Option Nat :=
  mcsToItbsDl[mcs]?.bind fun itbs => searchRows itbs tbSize transportBlockSizeTable 0

/-- The size in bits of the block that some resource blocks carry. -/
def blockSize (mcs nprb : Nat) : Option Nat :=
  mcsToItbsDl[mcs]?.bind fun itbs => transportBlockSizeTable[nprb - 1]?.bind fun row => row[itbs]?

/-- The least number of resource blocks that carry a transport block, in bytes. -/
structure LeastBlocks (mcs tbSize nprb : Nat) : Prop where
  inTable : 1 ≤ nprb ∧ nprb ≤ 110
  covers : ∃ bits, blockSize mcs nprb = some bits ∧ 8 * tbSize ≤ bits
  least : ∀ fewer, 1 ≤ fewer -> fewer < nprb -> ∀ bits, blockSize mcs fewer = some bits -> bits < 8 * tbSize

def column (itbs : Nat) (rows : List (List Nat)) : List Nat :=
  rows.map fun row => row.getD itbs 0

theorem length_table : transportBlockSizeTable.length = 110 := rfl

theorem length_row {row : List Nat} (mem : row ∈ transportBlockSizeTable) : row.length = 27 := by
  have all : ∀ row ∈ transportBlockSizeTable, row.length = 27 := by decide +kernel
  exact all row mem

variable {itbs : Nat}

theorem column_ordered (inRow : itbs < 27) : (column itbs transportBlockSizeTable).Pairwise (· ≤ ·) := by
  have rows : transportBlockSizeTable.IsChain fun row next =>
      row.length = 27 ∧ next.length = 27 ∧ ∀ entries ∈ row.zip next, entries.1 ≤ entries.2 := by
    decide +kernel
  refine isChain_iff_pairwise.mp ((isChain_map _).mpr (rows.imp fun row next ⟨length, lengthNext, ordered⟩ => ?_))
  have inZip : itbs < (row.zip next).length := by
    rw [length_zip]
    omega
  rw [getD_eq_getElem _ _ (by omega), getD_eq_getElem _ _ (by omega)]
  exact ordered _ (getElem_zip (h := inZip) ▸ getElem_mem inZip)

theorem itbs_of_mcs {mcs : Nat} (valid : mcs ≤ 28) : ∃ itbs < 27, mcsToItbsDl[mcs]? = some itbs := by
  have inTable : mcs < mcsToItbsDl.length := Nat.lt_succ_of_le valid
  have all : ∀ itbs ∈ mcsToItbsDl, itbs < 27 := by decide
  exact ⟨_, all _ (getElem_mem inTable), getElem?_eq_getElem inTable⟩

theorem searchRows_eq (tbSize : Nat) {rows : List (List Nat)}
    (wide : ∀ row ∈ rows, itbs < row.length) (nprb : Nat) :
    searchRows itbs tbSize rows nprb =
      ((column itbs rows).findIdx? fun bits => 8 * tbSize ≤ bits).map (· + nprb + 1) := by
  induction rows generalizing nprb with
  | nil => rfl
  | cons row rows ih =>
    obtain ⟨inRow, wideRest⟩ := forall_mem_cons.mp wide
    have entry : row[itbs]? = some (row.getD itbs 0) := by
      rw [getD_eq_getElem _ _ inRow]
      exact getElem?_eq_getElem inRow
    rw [searchRows, entry, bind_some, column, map_cons, findIdx?_cons]
    by_cases covers : 8 * tbSize ≤ row.getD itbs 0
    · rw [if_neg (by omega), if_pos (decide_eq_true covers), map_some, Nat.zero_add]
    · rw [if_pos (by omega), if_neg (by simpa using covers), ih wideRest,
        Option.map_map]
      congr 1
      funext index
      simp only [Function.comp_apply]
      omega

theorem blockSize_eq {mcs : Nat} (found : mcsToItbsDl[mcs]? = some itbs) (inRow : itbs < 27)
    (nprb : Nat) : blockSize mcs nprb = (column itbs transportBlockSizeTable)[nprb - 1]? := by
  rw [blockSize, found, column, getElem?_map]
  cases isRow : transportBlockSizeTable[nprb - 1]? with
  | none => rfl
  | some row =>
    have wide := length_row (mem_of_getElem? isRow)
    rw [map_some, getD_eq_getElem _ _ (by omega)]
    exact getElem?_eq_getElem (by omega)

/-- The search returns the least number of resource blocks exactly when the last row of the table
is large enough; otherwise it leaves the table. -/
theorem getDlRbSizeFromMcs_least_iff {mcs : Nat} (valid : mcs ≤ 28) (tbSize : Nat) :
    (∃ nprb, getDlRbSizeFromMcs mcs tbSize = some nprb ∧ LeastBlocks mcs tbSize nprb) ↔
      ∃ bits, blockSize mcs 110 = some bits ∧ 8 * tbSize ≤ bits := by
  obtain ⟨itbs, inRow, found⟩ := itbs_of_mcs valid
  have length : (column itbs transportBlockSizeTable).length = 110 := by
    rw [column, length_map, length_table]
  have ordered := column_ordered inRow
  have wide : ∀ row ∈ transportBlockSizeTable, itbs < row.length := by
    intro row member
    rw [length_row member]
    exact inRow
  have searched := searchRows_eq tbSize wide 0
  rw [getDlRbSizeFromMcs, found, bind_some, searched]
  constructor
  · rintro ⟨nprb, -, least⟩
    obtain ⟨bits, size, covers⟩ := least.covers
    rw [blockSize_eq found inRow] at size
    obtain ⟨before, rfl⟩ := List.getElem?_eq_some_iff.mp size
    refine ⟨_, (blockSize_eq found inRow _).trans
      (getElem?_eq_getElem (by rw [length]; decide)), Nat.le_trans covers ?_⟩
    obtain last | less := Nat.eq_or_lt_of_le least.inTable.2
    · simp only [last, Nat.le_refl]
    · exact pairwise_iff_getElem.mp ordered _ _ _ _ (by omega)
  · rintro ⟨bits, size, covers⟩
    rw [blockSize_eq found inRow] at size
    cases first : (column itbs transportBlockSizeTable).findIdx? fun bits => 8 * tbSize ≤ bits with
    | none =>
      have small := findIdx?_eq_none_iff.mp first bits (mem_of_getElem? size)
      exact absurd covers (by simpa using small)
    | some index =>
      obtain ⟨inColumn, isCovering, earlier⟩ := findIdx?_eq_some_iff_getElem.mp first
      refine ⟨index + 0 + 1, rfl, ⟨by omega, by omega⟩, ?_, ?_⟩
      · refine ⟨_, (blockSize_eq found inRow _).trans ?_, of_decide_eq_true isCovering⟩
        exact getElem?_eq_getElem inColumn
      · intro fewer positive less bits fewerSize
        rw [blockSize_eq found inRow] at fewerSize
        obtain ⟨isFewer, rfl⟩ := List.getElem?_eq_some_iff.mp fewerSize
        have tooSmall := earlier (fewer - 1) (by omega)
        simpa using tooSmall

theorem getDlRbSizeFromMcs_least_iff_small :
    28 ≤ 28 ∧ ((∃ nprb, getDlRbSizeFromMcs 28 9422 = some nprb ∧ LeastBlocks 28 9422 nprb) ↔
      ∃ bits, blockSize 28 110 = some bits ∧ 8 * 9422 ≤ bits) :=
  ⟨by decide, getDlRbSizeFromMcs_least_iff (by decide) 9422⟩

/-- A block of 200 kbit is larger than the last row of every column. -/
theorem search_leaves_table : ¬ ∀ mcs ≤ 28, ∀ tbSize,
    ∃ nprb, getDlRbSizeFromMcs mcs tbSize = some nprb ∧ LeastBlocks mcs tbSize nprb := by
  intro stays
  obtain ⟨nprb, found, -⟩ := stays 28 (by decide) 25000
  have leaves : getDlRbSizeFromMcs 28 25000 = none := by decide +kernel
  rw [leaves] at found
  cases found

end Ns3.Oran.NrCellLoad
